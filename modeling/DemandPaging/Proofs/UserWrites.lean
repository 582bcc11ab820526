import DemandPaging.Proofs.Histories
import DemandPaging.Proofs.Snapshots
import DemandPaging.Proofs.Sharers

/-!
What becomes of the writes of a user to pages that are in use, as long as the page table takes every
entry: they succeed, unless there is no memory to be had. Pages that are in memory and that nobody
shares need no more of it.
-/

namespace DemandPaging

open DemandPaging.Core

variable {m m' : Machine} {ref entry : PageRef} {page : Page} {id : FrameId} {frame : Frame}
  {s : SpaceId} {va sp : VirtAddr} {phys : PhysPage} {done : Bool} {bytes : Array UInt8} {n : Nat}
  {loan : HandleCount} {E : Panic → Machine → Prop}

namespace Core

variable {c c' : Core} {ds : List Deed}

def Granting (c : Core) (s : SpaceId) : Prop := ∀ k, c.grants s k = true

def Opened (c : Core) (entry : PageRef) : Prop :=
  ∃ mapping, c.mappings.find? entry = some mapping ∧ mapping.writable = true

/-- A page that a user may write to, and that was used before. -/
def Ready (c : Core) (ref : PageRef) : Prop :=
  ∃ page, c.pages.find? ref = some page ∧ page.writable = true ∧ page.kind.isUninit = false

theorem Steps.ready (h : Steps c ds c') (stays : .drop ref ∉ ds) (ready : c.Ready ref) :
    c'.Ready ref := by
  obtain ⟨page, found, writable, used⟩ := ready
  obtain ⟨page', found', same⟩ := h.remains found stays
  exact ⟨page', found', same.writable.trans writable, same.used used⟩

theorem Steps.granting (h : Steps c ds c') (granting : c.Granting s) : c'.Granting s := by
  rw [Granting, h.grants]
  exact granting

end Core

theorem remap_granted {writable : Bool} (granting : m.core.Granting entry.space)
    (h : remap entry phys writable m = .ok done m') :
    done = true ∧ m'.core = m.core.map entry ⟨phys, writable, m.core.dirty entry⟩ := by
  rcases remap_core h with mapped | ⟨-, -, k, refused⟩
  · exact mapped
  · exact nomatch (granting k).symm.trans refused

theorem Core.opened_of {c : Core} {mappings : Table PageRef Mapping} {mapping : Mapping}
    (entered : c.mappings = mappings.insert entry mapping) (writable : mapping.writable = true) :
    c.Opened entry :=
  ⟨mapping, by rw [entered, Table.find?_insert, if_pos rfl], writable⟩

theorem claimVacant_opened (hs : m.core.Sound) (writable : page.writable = true)
    (used : page.kind.isUninit = false) (granting : m.core.Granting page.table)
    (h : claimVacant ref page m = .ok done m') :
    done = true ∧ m'.core.Opened (page.entryRef ref) := by
  obtain ⟨-, taken, -, -, -, -, claims, -⟩ := claimVacant_claimed hs h
  have granting₁ := (allocateFrame_core hs taken).1.granting granting
  generalize m'.core = c' at claims
  cases claims with
  | filled => exact ⟨rfl, opened_of rfl writable⟩
  | @refused _ k _ refused => exact nomatch (granting₁ k).symm.trans refused
  | failed _ kind =>
      rw [kind] at used
      exact nomatch used

theorem breakSharing_sole (owned : m.core.frames.find? id = some frame)
    (sole : frame.owners.length = 1) (granting : m.core.Granting page.table)
    (h : breakSharing ref page id m = .ok done m') :
    done = true ∧ m'.core = ((m.core.stamp ref page).setPage ref { page with
      lastAccess := m.core.clock + 1, cow := false }).map (page.entryRef ref)
        ⟨frame.page, page.writable, m.core.dirty (page.entryRef ref)⟩ := by
  obtain ⟨m₁, hm₁, h⟩ := breakSharing_alone owned sole h
  have mapped := remap_granted (by rw [hm₁]; exact granting) h
  rw [hm₁] at mapped
  exact mapped

theorem breakSharing_opened (hs : m.core.Sound) (found : m.core.pages.find? ref = some page)
    (resident : page.frame = some id) (writable : page.writable = true)
    (granting : m.core.Granting page.table) (h : breakSharing ref page id m = .ok done m') :
    done = true ∧ m'.core.Opened (page.entryRef ref) := by
  cases breakSharing_breaks hs found resident h with
  | alone owned sole =>
      obtain ⟨hdone, hm'⟩ := breakSharing_sole owned sole granting h
      rw [hm']
      exact ⟨hdone, opened_of rfl writable⟩
  | @parted m₁ m₂ new ds touched taken found₂ parts =>
      have stamped : m₁.core = m.core.stamp ref page := congrArg Machine.core touched
      have hstamp : Step m.core [] m₁.core := stamped ▸ .touch found
      have hsteps := (allocateFrame_core (hstamp.sound hs) taken).1
      have granting₂ := (hstamp.steps.trans hsteps).granting granting
      generalize m'.core = c' at parts
      cases parts with
      | copied => exact ⟨rfl, opened_of rfl writable⟩
      | @lost _ _ k _ _ _ refused => exact nomatch (granting₂ k).symm.trans refused

theorem resolve_opened (hs : m.core.Sound) (ready : m.core.Ready ref)
    (granting : m.core.Granting ref.space) (h : resolve ref true m = .ok done m') :
    done = true ∧ m'.core.Opened ref := by
  obtain ⟨page, found, writable, used⟩ := ready
  have home := hs.owned.home ref page found
  have entry := hs.entryRef found
  rw [← home] at granting
  rw [← entry]
  rcases resolve_write found writable h with
    ⟨-, run⟩ | ⟨-, id, resident, run⟩ | ⟨alone, id, page', m₁, frame, -, touched, -, run⟩
  · exact claimVacant_opened hs writable used granting run
  · exact breakSharing_opened hs found resident writable granting run
  · obtain ⟨rfl, hm₁⟩ := touch_core touched
    obtain ⟨hdone, hm'⟩ := remap_granted (by rw [hm₁]; exact granting) run
    have mapped : ({ page with lastAccess := m.core.clock + 1 } : Page).mappedWritable = true := by
      simp [Page.mappedWritable, writable, alone]
    rw [hm']
    exact ⟨hdone, opened_of rfl mapped⟩

theorem faultIn_opened (hs : m.core.Sound) (user : va.isUser = true)
    (ready : m.core.Ready ⟨s, va.vpnFloor⟩) (granting : m.core.Granting s)
    (h : faultIn s va sp true m = .ok done m') : done = true ∧ m'.core.Opened ⟨s, va.vpnFloor⟩ := by
  obtain ⟨_, _, h₁, h⟩ := bind_ok.1 h
  obtain ⟨-, rfl⟩ := mapping?_core h₁
  obtain ⟨page, found, -⟩ := id ready
  obtain ⟨page', m₁, touched, resolved⟩ :=
    resolveFault_write found user (FaultFlags.write_ofParts _ _ _) h
  obtain ⟨stamped, -⟩ := touch_step (m := { m with console := _ }) (by exact found) touched
  exact resolve_opened (stamped.sound hs) (stamped.steps.ready List.not_mem_nil ready)
    (stamped.steps.granting granting) resolved

theorem writeMapped_opened (opened : m.core.Opened ⟨s, va.vpnFloor⟩)
    (h : writeMapped s va bytes m = .ok done m') : done = true := by
  obtain ⟨mapping, found, writable⟩ := opened
  obtain ⟨_, _, h₁, h⟩ := bind_ok.1 h
  obtain ⟨rfl, rfl⟩ := mapping?_core h₁
  simp only [found, writable, if_true] at h
  obtain ⟨_, _, -, h⟩ := bind_ok.1 h
  obtain ⟨_, _, -, h⟩ := bind_ok.1 h
  obtain ⟨_, _, -, h⟩ := bind_ok.1 h
  exact (pure_ok.1 h).1.symm

theorem writePiece_done (hs : m.core.Sound) (fits : va.pageOffset + bytes.size ≤ pageSize)
    (user : va.isUser = true) (ready : m.core.Ready ⟨s, va.vpnFloor⟩) (granting : m.core.Granting s)
    (h : writePiece s va sp bytes m = .ok done m') : done = true := by
  rcases writePiece_parts h with ⟨rfl, -⟩ | ⟨m₁, refused, rest⟩
  · rfl
  · obtain ⟨-, rfl⟩ := (writeMapped_core fits refused).resolve_left nofun
    rcases rest with ⟨-, failed⟩ | ⟨m₂, resolved, again⟩
    · exact nomatch (faultIn_opened hs user ready granting failed).1
    · exact writeMapped_opened (faultIn_opened hs user ready granting resolved).2 again

def Core.Writes (c : Core) (s : SpaceId) (P : VirtAddr → Prop) : Prop :=
  ∀ x, P x → x.isUser = true ∧ c.Ready ⟨s, x.vpnFloor⟩

theorem Core.Steps.writes {c c' : Core} {ds : List Deed} {P Q : VirtAddr → Prop}
    (h : Steps c ds c') (writes : ∀ d ∈ ds, d.Writes s Q) (ready : c.Writes s P) :
    c'.Writes s P := by
  intro x hx
  obtain ⟨user, hready⟩ := ready x hx
  refine ⟨user, h.ready (fun hd => ?_) hready⟩
  obtain ⟨y, -, ((settles | lost) | added) | ⟨_, written⟩⟩ := writes _ hd
  · exact settles
  · exact nomatch lost
  · exact nomatch added
  · exact nomatch written

theorem writePieces_done {count i : Nat} (hi : i + count = pieceCount va.pageOffset bytes.size)
    (hs : m.core.Sound) (writes : m.core.Writes s (va.Spans bytes.size)) (granting : m.core.Granting s)
    (h : writePieces s va sp bytes count i m = .ok done m') : done = true := by
  induction count generalizing m i with
  | zero => exact (pure_ok.1 h).1.symm
  | succ count ih =>
      have hlt : i < pieceCount va.pageOffset bytes.size := by omega
      obtain ⟨user, ready⟩ := writes _ (VirtAddr.spans_piece hlt)
      rw [writePieces_succ hlt] at h
      obtain ⟨first, m₁, h₁, h⟩ := bind_ok.1 h
      obtain rfl := writePiece_done hs (extract_fits hlt) user ready granting h₁
      obtain ⟨ds, run, deeds, -⟩ := writePiece_core hs (extract_fits hlt) h₁
      have writes' : m₁.core.Writes s (va.Spans bytes.size) := run.writes deeds writes
      exact ih (by omega) (run.sound hs) writes' (run.granting granting) h

theorem userWrite_ends (h : m.Tidy n loan) (writes : m.core.Writes s (va.Spans bytes.size))
    (granting : m.core.Granting s) :
    Ends Exhausted (userWrite s va bytes sp) m fun done _ => done = true :=
  (writePieces_upholds s va sp bytes (Nat.zero_add _) h).imp fun _ _ run _ =>
    writePieces_done (Nat.zero_add _) h.sound writes granting run

/-! Writes to pages that nobody shares. -/

theorem find_timed : Stops OutOfTime (find s va) m := by
  refine (page?_safe _).next fun found _ _ => ?_
  cases found with
  | none => exact (Safe.pure _).stops
  | some page => exact touch_timed.bind fun _ _ _ _ => (Safe.pure _).stops

namespace Core

variable {c c' c₁ : Core}

/-- No frame comes or goes, and every page stays in its frame. -/
structure Stays (c c' : Core) : Prop where
  frames : c'.frames = c.frames
  pages : ∀ ref, (c'.pages.find? ref).map Page.frame = (c.pages.find? ref).map Page.frame

theorem Stays.refl (c : Core) : c.Stays c := ⟨rfl, fun _ => rfl⟩

theorem Stays.trans (h : c.Stays c₁) (h' : c₁.Stays c') : c.Stays c' :=
  ⟨h'.frames.trans h.frames, fun ref => (h'.pages ref).trans (h.pages ref)⟩

theorem stays_of_insert {page' : Page} (found : c.pages.find? ref = some page)
    (frames : c'.frames = c.frames) (changed : c'.pages = c.pages.insert ref page')
    (same : page'.frame = page.frame) : c.Stays c' := by
  refine ⟨frames, fun r => ?_⟩
  rw [changed, Table.find?_insert]
  split
  · next hr =>
      subst hr
      rw [found, Option.map_some, Option.map_some, same]
  · rfl

theorem Step.stays_write {offset : Nat} {bytes : Array UInt8}
    (h : Step c [.write ref offset bytes] c') : c.Stays c' := by
  cases h with
  | write => exact ⟨rfl, fun _ => rfl⟩
  | fill _ _ _ filled => exact (filled.settles.1 _ List.mem_cons_self).elim

def Alone (c : Core) (ref : PageRef) : Prop :=
  ∃ page id frame, c.pages.find? ref = some page ∧ page.frame = some id ∧
    c.frames.find? id = some frame ∧ frame.owners.length = 1

theorem Stays.alone (h : c.Stays c') (alone : c.Alone ref) : c'.Alone ref := by
  obtain ⟨page, id, frame, found, resident, owned, sole⟩ := alone
  have same := h.pages ref
  rw [found, Option.map_some] at same
  obtain ⟨page', found', hframe⟩ := Option.map_eq_some_iff.1 same
  exact ⟨page', id, frame, found', hframe.trans resident, by rw [h.frames]; exact owned, sole⟩

end Core

theorem resolve_alone (hs : m.core.Sound) (ready : m.core.Ready ref) (alone : m.core.Alone ref)
    (granting : m.core.Granting ref.space) :
    Ends OutOfTime (resolve ref true) m fun _ m' => m.core.Stays m'.core := by
  obtain ⟨page, id, frame, found, resident, owned, sole⟩ := alone
  obtain ⟨_, found', writable, -⟩ := ready
  cases Option.some.inj (found.symm.trans found')
  rw [← hs.owned.home ref page found] at granting
  refine (page?_safe ref).next fun _ _ h₁ => ?_
  obtain ⟨rfl, rfl⟩ := page?_core h₁
  simp only [found, writable, resident, Bool.not_true, Bool.and_false, Bool.false_eq_true, if_false,
    Bool.and_true]
  split
  · have timed : Stops OutOfTime (breakSharing ref page id) m := by
      refine breakSharing_ends (fun _ _ h => h) (fun _ m₁ shared h₂ owned₁ many => ?_) hs found resident
      rw [(touch_core h₂).2] at owned₁
      exact absurd (Option.some.inj (owned.symm.trans owned₁) ▸ sole) many
    refine timed.imp fun _ m' run _ => ?_
    obtain ⟨-, hm'⟩ := breakSharing_sole owned sole granting run
    rw [hm']
    have stamped : m.core.Stays (m.core.stamp ref page) := stays_of_insert found rfl rfl rfl
    exact stamped.trans
      (stays_of_insert (stamp_found _ _ _) rfl rfl rfl)
  · refine touch_timed.bind fun page' m₁ h₁ _ => ?_
    obtain ⟨rfl, hm₁⟩ := touch_core h₁
    have stays : m.core.Stays m₁.core := by
      rw [hm₁]
      exact stays_of_insert found rfl rfl rfl
    refine (physPage_ends (stays.frames ▸ owned)).bind fun _ _ _ result => ?_
    obtain ⟨-, rfl⟩ := result
    refine (remap_safe _ _ _).ends fun _ m₂ run => ?_
    obtain ⟨-, hm₂⟩ := remap_granted (by rw [hm₁]; exact granting) run
    rw [hm₂]
    exact ⟨stays.frames, stays.pages⟩

theorem faultIn_alone (hs : m.core.Sound) (user : va.isUser = true)
    (ready : m.core.Ready ⟨s, va.vpnFloor⟩) (alone : m.core.Alone ⟨s, va.vpnFloor⟩)
    (granting : m.core.Granting s) :
    Ends OutOfTime (faultIn s va sp true) m fun _ m' => m.core.Stays m'.core := by
  refine (Safe.get.bind fun _ => .pure _ : Safe (mapping? s va)).next fun _ _ h₁ => ?_
  obtain ⟨-, rfl⟩ := mapping?_core h₁
  refine (emit_safe _).next fun _ m₁ h₂ => ?_
  have hm₁ := emit_core h₂
  rw [← hm₁] at hs ready alone granting ⊢
  simp only [user, FaultFlags.write_ofParts, Bool.not_true, Bool.false_eq_true, if_false,
    Bool.and_false]
  refine find_timed.bind fun got m₂ h₃ _ => ?_
  obtain ⟨page, found, -⟩ := id ready
  obtain ⟨rfl, hm₂⟩ := find_found found h₃
  have run := (find_core h₃).1
  have stays : m₁.core.Stays m₂.core := by
    rw [hm₂]
    exact stays_of_insert found rfl rfl rfl
  refine (resolve_alone (run.sound hs) (run.ready List.not_mem_nil ready) (stays.alone alone)
    (run.granting granting)).imp fun _ _ _ stays' => stays.trans stays'

theorem writeMapped_stays (fits : va.pageOffset + bytes.size ≤ pageSize) :
    Ends E (writeMapped s va bytes) m fun _ m' => m.core.Stays m'.core :=
  (writeMapped_safe s va bytes).ends fun done m' run => by
    rcases writeMapped_core fits run with ⟨-, step⟩ | ⟨-, rfl⟩
    · exact step.stays_write
    · exact .refl _

theorem writePiece_alone (hs : m.core.Sound) (fits : va.pageOffset + bytes.size ≤ pageSize)
    (user : va.isUser = true) (ready : m.core.Ready ⟨s, va.vpnFloor⟩)
    (alone : m.core.Alone ⟨s, va.vpnFloor⟩) (granting : m.core.Granting s) :
    Ends OutOfTime (writePiece s va sp bytes) m fun _ m' => m.core.Stays m'.core := by
  refine (writeMapped_stays fits).bind fun first m₁ h₁ stays => ?_
  rcases writeMapped_core fits h₁ with ⟨rfl, -⟩ | ⟨rfl, rfl⟩
  · exact .pure stays
  · refine (faultIn_alone hs user ready alone granting).bind fun resolved m₂ _ stays₂ => ?_
    cases resolved with
    | true => exact (writeMapped_stays fits).imp fun _ _ _ stays₃ => stays₂.trans stays₃
    | false => exact .pure stays₂

theorem writePieces_alone {count i : Nat} (hi : i + count = pieceCount va.pageOffset bytes.size)
    (hs : m.core.Sound) (writes : m.core.Writes s (va.Spans bytes.size))
    (alone : ∀ x, va.Spans bytes.size x → m.core.Alone ⟨s, x.vpnFloor⟩)
    (granting : m.core.Granting s) :
    Ends OutOfTime (writePieces s va sp bytes count i) m fun _ m' => m.core.Stays m'.core := by
  induction count generalizing m i with
  | zero => exact .pure (.refl _)
  | succ count ih =>
      have hlt : i < pieceCount va.pageOffset bytes.size := by omega
      have hspan := VirtAddr.spans_piece hlt
      obtain ⟨user, ready⟩ := writes _ hspan
      have fits := extract_fits hlt
      rw [writePieces_succ hlt]
      refine (writePiece_alone hs fits user ready (alone _ hspan) granting).bind
        fun first m₁ h₁ stays => ?_
      obtain ⟨ds, run, deeds, -⟩ := writePiece_core hs fits h₁
      cases first with
      | true =>
          exact (ih (by omega) (run.sound hs) (run.writes deeds writes)
            (fun x hx => stays.alone (alone x hx)) (run.granting granting)).imp
              fun _ _ _ stays' => stays.trans stays'
      | false => exact .pure stays

theorem userWrite_alone (hs : m.core.Sound) (writes : m.core.Writes s (va.Spans bytes.size))
    (alone : ∀ x, va.Spans bytes.size x → m.core.Alone ⟨s, x.vpnFloor⟩)
    (granting : m.core.Granting s) :
    Ends OutOfTime (userWrite s va bytes sp) m fun done m' => done = true ∧ m.core.Stays m'.core :=
  (writePieces_alone (Nat.zero_add _) hs writes alone granting).imp fun _ _ run stays =>
    ⟨writePieces_done (Nat.zero_add _) hs writes granting run, stays⟩

end DemandPaging
