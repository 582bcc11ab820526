import DemandPaging.Proofs.UserWrites

namespace DemandPaging

open DemandPaging.Core
open Keeps

variable {α β γ : Type} {view : Machine → γ} {m m' : Machine} {ref entry : PageRef} {page : Page}
  {id : FrameId} {frame : Frame} {phys : PhysPage} {s : SpaceId} {va sp : VirtAddr} {done : Bool}
  {bytes : Array UInt8} {x : KernelM α}

section Remote

variable [Remote view]

theorem PageKind.fill_keeps {kind : PageKind} (used : kind.isUninit = false) :
    Keeps view (kind.fill phys) := by
  unfold PageKind.fill
  split
  · exact (writePhys_keeps _ _).bind fun _ => .pure _
  · exact (readPhys_keeps _).bind fun _ => (readSlot_keeps _ _).bind fun _ =>
      (writePhys_keeps _ _).bind fun _ => (freeSlot_keeps _).bind fun _ => .pure _
  · exact (load_keeps _).bind fun _ => (writePhys_keeps _ _).bind fun _ => .pure _
  · exact nomatch used
  · exact nomatch used
  · exact nomatch used

theorem mapAndFill_keeps (used : page.kind.isUninit = false) :
    Keeps view (mapAndFill ref page phys) :=
  (install_keeps _ _ _).bind fun _ => .ite
    ((emit_keeps _ rfl).bind fun _ => PageKind.fill_keeps used) (.pure _)

theorem claimVacant_keeps (used : page.kind.isUninit = false) : Keeps view (claimVacant ref page) := by
  unfold claimVacant
  split
  · exact .throw _
  · refine allocateFrame_keeps.bind fun _ => (physPage_keeps _).bind fun _ =>
      (link_keeps _ _).bind fun _ => (mapAndFill_keeps used).bind fun got => ?_
    split
    · exact (touch_keeps _ _).bind fun _ => (emit_keeps _ rfl).bind fun _ => .pure _
    · exact (emit_keeps _ rfl).bind fun _ => (clearMapping_keeps _).bind fun _ =>
        (setPage_keeps _ _).bind fun _ => (unlink_keeps _ _).bind fun _ => .pure _

end Remote

def Reports (va : VirtAddr) (x : KernelM α) : Prop :=
  ∀ ⦃m a m'⦄, x m = .ok a m' → m'.copies = va :: m.copies

theorem Keeps.reports {f : α → KernelM β} (hx : Keeps Machine.copies x) (hf : ∀ a, Reports va (f a)) :
    Reports va (x >>= f) := by
  intro m b m' h
  obtain ⟨a, m₁, h₁, h⟩ := bind_ok.1 h
  rw [hf a h, hx h₁]

theorem reports_copied {old new : FrameId} {f : Unit → KernelM α} (hf : Keeps Machine.copies (f ())) :
    Reports va (emit (.copied va old new) >>= f) := by
  intro m a m' h
  obtain ⟨_, m₁, h₁, h⟩ := bind_ok.1 h
  rw [hf h, ← emit_ok.1 h₁]
  exact List.filterMap_cons_some rfl

theorem breakSharing_reports (h : breakSharing ref page id m = .ok done m') :
    ∃ frame, m.core.frames.find? id = some frame ∧
      m'.copies = if frame.owners.length = 1 then m.copies else ref.va :: m.copies := by
  obtain ⟨page', m₁, h₁, h⟩ := bind_ok.1 h
  have touched : m₁.copies = m.copies := touch_keeps _ _ h₁
  obtain ⟨-, hm₁⟩ := touch_core h₁
  obtain ⟨count, _, h₂, h⟩ := bind_ok.1 h
  obtain ⟨frame, owned, rfl, rfl⟩ := refCount_core h₂
  rw [← touched]
  refine ⟨frame, by rw [← owned, hm₁]; rfl, ?_⟩
  split at h
  · next sole =>
      rw [if_pos sole]
      refine Keeps.bind ?_ (fun _ => ?_) h
      · exact setPage_keeps _ _
      · exact (emit_keeps _ rfl).bind fun _ => (physPage_keeps _).bind fun _ => remap_keeps _ _ _
  · next many =>
      rw [if_neg many]
      refine Keeps.reports allocateFrame_keeps (fun _ => ?_) h
      exact (physPage_keeps _).reports fun _ => (physPage_keeps _).reports fun _ =>
        (readPhys_keeps _).reports fun _ => (writePhys_keeps _ _).reports fun _ =>
          (unlink_keeps _ _).reports fun _ => (link_keeps _ _).reports fun _ =>
            (setPage_keeps _ _).reports fun _ => reports_copied <| (remap_keeps _ _ _).bind fun _ =>
              .ite (.pure _) ((clearMapping_keeps _).bind fun _ => (setPage_keeps _ _).bind fun _ =>
                (unlink_keeps _ _).bind fun _ => .pure _)

theorem Core.Sound.together_of_many {c : Core} (hs : c.Sound) (found : c.pages.find? ref = some page)
    (resident : page.frame = some id) (owned : c.frames.find? id = some frame)
    (many : frame.owners.length ≠ 1) : ∃ r, c.Together ref r := by
  by_contra alone
  exact many (by rw [hs.owners_alone found resident owned (not_exists.1 alone)]; rfl)

theorem resolve_reports (hs : m.core.Sound) (ready : m.core.Ready ref)
    (h : resolve ref true m = .ok done m') : m'.copies = m.copies ∨
      m'.copies = ref.va :: m.copies ∧ ∃ r, m.core.Together ref r := by
  obtain ⟨page, found, writable, used⟩ := ready
  rcases resolve_write found writable h with
    ⟨-, run⟩ | ⟨-, id, resident, run⟩ | ⟨-, id, page', m₁, frame, -, touched, -, run⟩
  · exact .inl (claimVacant_keeps used run)
  · obtain ⟨frame, owned, copies⟩ := breakSharing_reports run
    by_cases many : frame.owners.length = 1
    · exact .inl (copies.trans (if_pos many))
    · exact .inr ⟨copies.trans (if_neg many), hs.together_of_many found resident owned many⟩
  · exact .inl ((remap_keeps _ _ _ run).trans (touch_keeps _ _ touched))

theorem resolveFault_reports {flags : FaultFlags} (hs : m.core.Sound) (user : va.isUser = true)
    (write : flags.write = true) (ready : m.core.Ready ⟨s, va.vpnFloor⟩)
    (h : resolveFault s va sp flags m = .ok done m') :
    m'.copies = m.copies ∨ m'.copies = va.vpnFloor.pageStart :: m.copies ∧
      ∃ r, m.core.Together ⟨s, va.vpnFloor⟩ r := by
  obtain ⟨page, found, -⟩ := id ready
  obtain ⟨page', m₁, touched, resolved⟩ := resolveFault_write found user write h
  obtain ⟨stamped, -⟩ := touch_step (m := { m with console := _ }) (by exact found) touched
  have reported : m₁.copies = m.copies := (touch_keeps _ _ touched).trans rfl
  rw [← reported]
  refine (resolve_reports (stamped.sound hs) (stamped.steps.ready List.not_mem_nil ready)
    resolved).imp_right ?_
  exact fun ⟨copied, r, together⟩ =>
    ⟨copied, r, stamped.steps.together_before hs nofun together⟩

theorem faultIn_reports (hs : m.core.Sound) (user : va.isUser = true)
    (ready : m.core.Ready ⟨s, va.vpnFloor⟩) (h : faultIn s va sp true m = .ok done m') :
    m'.copies = m.copies ∨ m'.copies = va.vpnFloor.pageStart :: m.copies ∧
      ∃ r, m.core.Together ⟨s, va.vpnFloor⟩ r := by
  obtain ⟨_, _, h₁, h⟩ := bind_ok.1 h
  obtain ⟨-, rfl⟩ := mapping?_core h₁
  exact resolveFault_reports hs user (FaultFlags.write_ofParts _ _ _) ready h

theorem writePiece_reports (hs : m.core.Sound) (user : va.isUser = true)
    (fits : va.pageOffset + bytes.size ≤ pageSize) (ready : m.core.Ready ⟨s, va.vpnFloor⟩)
    (h : writePiece s va sp bytes m = .ok done m') :
    m'.copies = m.copies ∨ m'.copies = va.vpnFloor.pageStart :: m.copies ∧
      ∃ r, m.core.Together ⟨s, va.vpnFloor⟩ r := by
  rcases writePiece_parts h with ⟨-, written⟩ | ⟨m₁, refused, rest⟩
  · exact .inl (writeMapped_keeps _ _ _ written)
  · obtain ⟨-, rfl⟩ := (writeMapped_core fits refused).resolve_left nofun
    rcases rest with ⟨-, failed⟩ | ⟨m₂, resolved, again⟩
    · exact faultIn_reports hs user ready failed
    · rw [(writeMapped_keeps _ _ _ again : m'.copies = m₂.copies)]
      exact faultIn_reports hs user ready resolved

theorem Deed.Writes.unshared {P : VirtAddr → Prop} {d : Deed} (h : d.Writes s P) (a b : PageRef)
    (whole : Bool) : d ≠ .share a b whole := by
  rintro rfl
  obtain ⟨_, -, ((settles | lost) | added) | ⟨_, written⟩⟩ := h
  · exact settles
  · cases lost
  · cases added
  · cases written

def Core.SharedAt (c : Core) (s : SpaceId) (P : VirtAddr → Prop) (a : VirtAddr) : Prop :=
  ∃ x, P x ∧ a = x.vpnFloor.pageStart ∧ ∃ r, c.Together ⟨s, x.vpnFloor⟩ r

theorem writePieces_reports {count i : Nat} (hi : i + count = pieceCount va.pageOffset bytes.size)
    (hs : m.core.Sound) (writes : m.core.Writes s (va.Spans bytes.size))
    (h : writePieces s va sp bytes count i m = .ok done m') : ∃ added,
      m'.copies = added ++ m.copies ∧ ∀ a ∈ added, m.core.SharedAt s (va.Spans bytes.size) a := by
  induction count generalizing m i with
  | zero => exact ⟨[], congrArg Machine.copies (pure_ok.1 h).2.symm, nofun⟩
  | succ count ih =>
      have hlt : i < pieceCount va.pageOffset bytes.size := by omega
      have hspan := VirtAddr.spans_piece hlt
      obtain ⟨user, ready⟩ := writes _ hspan
      have fits := extract_fits hlt
      rw [writePieces_succ hlt] at h
      obtain ⟨first, m₁, h₁, h⟩ := bind_ok.1 h
      obtain ⟨ds, run, deeds, -⟩ := writePiece_core hs fits h₁
      have reported := writePiece_reports hs user fits ready h₁
      obtain ⟨added, copies, shared⟩ : ∃ added, m'.copies = added ++ m₁.copies ∧
          ∀ a ∈ added, m₁.core.SharedAt s (va.Spans bytes.size) a := by
        cases first with
        | true => exact ih (by omega) (run.sound hs) (run.writes deeds writes) h
        | false => exact ⟨[], congrArg Machine.copies (pure_ok.1 h).2.symm, nofun⟩
      -- nobody comes to share a page during a write
      have before : ∀ a ∈ added, m.core.SharedAt s (va.Spans bytes.size) a := fun a ha => by
        obtain ⟨x, hx, rfl, r, together⟩ := shared a ha
        refine ⟨x, hx, rfl, r, run.together_before hs (fun a b w hd => ?_) together⟩
        exact (deeds _ hd).unshared a b w rfl
      rcases reported with same | ⟨copied, together⟩
      · exact ⟨added, same ▸ copies, before⟩
      · refine ⟨added ++ [_], by rw [copies, copied, List.append_assoc]; rfl, fun a ha => ?_⟩
        rcases List.mem_append.1 ha with ha | ha
        · exact before a ha
        · exact ⟨_, hspan, List.mem_singleton.1 ha, together⟩

theorem userWrite_reports (hs : m.core.Sound) (writes : m.core.Writes s (va.Spans bytes.size))
    (h : userWrite s va bytes sp m = .ok done m') : ∃ added,
      m'.copies = added ++ m.copies ∧ ∀ a ∈ added, m.core.SharedAt s (va.Spans bytes.size) a :=
  writePieces_reports (Nat.zero_add _) hs writes h

end DemandPaging
