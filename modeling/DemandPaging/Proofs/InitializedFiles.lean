import DemandPaging.Proofs.FirstContents
import DemandPaging.Proofs.SharedWrites

/-!
File pages that begin with what an initializer makes, and not with what the file has. They count as
clean all the same, so they are dropped when they leave memory and come back as the file has them.
-/

namespace DemandPaging

open DemandPaging.Core

variable {m m₀ m₁ m' : Machine} {ref : PageRef} {page : Page} {id : FrameId} {backing : FileBacking}
  {init : Initializer} {target : PageTarget} {bytes : PageBytes} {log later : List Exchange}
  {hops : List (Core × Core)} {x : KernelM Bool} {frames : Nat} {sectors : Option Nat}
  {files : List File} {allocator : Allocator}

namespace Core

variable {c c' : Core} {ds : List Deed}

def Apart (c : Core) (ref : PageRef) : Prop :=
  ∃ page, c.pages.find? ref = some page ∧ ∀ r, ¬ c.Together ref r

theorem Apart.shielded (h : c.Apart ref) (hs : c.Sound) : c.Shielded ref := by
  obtain ⟨-, -, alone⟩ := h
  intro r entry page id frame mapped writable found resident owned hr
  by_contra hne
  exact alone r ⟨hne, id, frame, owned, hr, hs.owner found resident owned⟩

theorem Apart.steps (h : c.Apart ref) (hs : c.Sound) (run : Steps c ds c') (stay : .drop ref ∉ ds)
    (unshared : ∀ dst whole, .share ref dst whole ∉ ds) : c'.Apart ref := by
  obtain ⟨page, found, alone⟩ := h
  obtain ⟨page', found', -⟩ := run.remains found stay
  refine ⟨page', found', fun r together => ?_⟩
  have only {P : PageRef → Prop} (hP : P ref) : ∀ a ∈ [ref], P a := fun a ha =>
    List.mem_singleton.1 ha ▸ hP
  have closed := run.closed hs (only ⟨page, found⟩) (only stay) (only unshared)
    (only fun r together => (alone r together).elim) ref List.mem_cons_self r together
  exact together.1 (List.mem_singleton.1 closed).symm

theorem Trail.apart (h : Trail c hops ds c') (hs : c.Sound) (start : c.Apart ref)
    (stay : .drop ref ∉ ds) (unshared : ∀ dst whole, .share ref dst whole ∉ ds) :
    ∀ hop ∈ hops, hop.1.Shielded ref := by
  induction h with
  | start => exact nofun
  | step before _ ih =>
      have stay' := fun hd => stay (List.mem_append_left _ hd)
      have unshared' := fun dst whole hd => unshared dst whole (List.mem_append_left _ hd)
      rw [List.forall_mem_append, List.forall_mem_singleton]
      refine ⟨ih stay' unshared', ?_⟩
      exact (start.steps hs before.steps stay' unshared').shielded (before.steps.sound hs)

theorem Claims.initialized {kind : PageKind} (h : c.Claims ref page id (kind, true) ds c')
    (unused : page.kind = .uninit target (some init)) : ∃ p phys, c'.pages.find? ref = some p ∧
      p.kind = target.kind ∧ p.frame = some id ∧ c'.frames.find? id = some ⟨phys, [ref]⟩ := by
  cases h with
  | @filled _ _ phys _ _ free fills =>
      have made : kind = target.kind := by
        rw [unused] at fills
        cases fills with
        | made => rfl
      obtain ⟨swap, programs, rfl, -⟩ := fills.core_eq
      exact ⟨_, phys, Table.find?_insert_self, made, rfl, FrameTable.find?_update_self⟩

end Core

theorem Operation.Does.unshared {c c' : Core} {op : Operation} {a : Answer} {ds : List Deed}
    (h : Does c c' op a ds) (hop : op.Spares ref) (src dst : PageRef) (whole : Bool) :
    .share src dst whole ∉ ds := fun hd => by
  obtain ⟨_, _, _, _, rfl, -⟩ := h.shares hd
  exact hop

theorem Traced.apart (h : Traced ref m log hops m') (hs : m.core.Sound) (start : m.core.Apart ref) :
    (∀ hop ∈ hops, hop.1.Shielded ref) ∧ m'.core.Apart ref := by
  induction h with
  | start => exact ⟨nofun, start⟩
  | @next m₁ _ _ _ _ _ _ _ _ before spares _ trail does ih =>
      obtain ⟨shielded, apart⟩ := ih
      have hs₁ := before.sound hs
      have present : m₁.core.pages.find? ref ≠ none := by
        obtain ⟨p, found, -⟩ := apart
        rw [found]
        exact nofun
      have stay := fun hd => does.spares spares present (Deed.drop ref) hd rfl
      have unshared := does.unshared spares ref
      rw [List.forall_mem_append]
      exact ⟨⟨shielded, trail.apart hs₁ apart stay unshared⟩,
        apart.steps hs₁ trail.steps stay unshared⟩

theorem Machine.Coherent.initialized (coherent : m.Coherent)
    (found : m.core.pages.find? ref = some page)
    (unused : page.kind = .uninit (.file backing) (some init))
    (whole : (m.core.files backing.file).ReadsWhole) (uses : ref.Uses x) (used : x m = .ok true m₁) :
    (∃ id m₀, allocateFrame m = .ok id m₀ ∧
      m₁.core.held? ref = some (m₀.finds page.kind).contents) ∧
    m₁.core.Apart ref ∧ m₁.Shows ref backing := by
  have hs := coherent.sound
  have unused' : page.kind.isUninit = true := by
    rw [unused]
    rfl
  have claimed := uses.claims found (hs.owned.unused ref page found unused') used
  obtain ⟨ds, run, -⟩ := claimVacant_core hs found claimed
  have hs₁ := run.sound hs
  cases claimVacant_claimed hs claimed with
  | intro away taken spares _ _ _ claims =>
      obtain ⟨p, phys, there, kind, resident, owned⟩ := claims.initialized unused
      refine ⟨⟨_, _, taken, claimVacant_first hs unused' taken claimed⟩,
        ⟨p, there, fun r together => ?_⟩, hs₁, ⟨_, looks_found there, kind⟩,
        run.readsWhole hs whole⟩
      have only := (hs₁.owner_iff there resident owned).2 (.inr together)
      exact together.1 (List.mem_singleton.1 only).symm

/-- A page of a file begins with what its initializer makes. As long as nobody writes to it or takes it
away, it keeps what it shows of the file exactly if the file has these bytes whenever the page comes back
to memory, and then these are the bytes that users read there. If nobody writes to the file either, that
means: if the page never comes back, or the initializer made what is in the file anyway. -/
theorem initialized_file_page_kept_iff (passes : (Machine.fresh frames sectors files allocator).Passes m)
    (found : m.pages.find? ref = some page)
    (unused : page.kind = .uninit (.file backing) (some init))
    (whole : (m.core.files backing.file).ReadsWhole) (uses : ref.Uses x) (used : x m = .ok true m₁)
    (run : Run (fun _ => Operation.Spares ref) m₁ later m') :
    ∃ bytes, m₁.core.held? ref = some bytes ∧
      (∃ id m₀, allocateFrame m = .ok id m₀ ∧ bytes = (m₀.finds page.kind).contents) ∧
      (∃ hops, Traced ref m₁ later hops m') ∧ ∀ hops, Traced ref m₁ later hops m' →
        ((∀ hop ∈ hops, hop.2.MemoryHolds ref backing bytes) ↔
          ∀ hop ∈ hops, Reloads ref backing bytes hop) ∧
        ((∀ hop ∈ hops, Reloads ref backing bytes hop) →
          ∀ s va length sp got, (.read s va length sp, .bytes (some got)) ∈ later →
            ∀ b ∈ ByteAt.along s va got.toList, b.ref = ref →
              b.offset < backing.readBytes → b.byte = bytes.byteAt b.offset) ∧
        ((∀ hop ∈ hops, (hop.1.files backing.file).data = (m₁.core.files backing.file).data) →
          ((∀ hop ∈ hops, hop.2.MemoryHolds ref backing bytes) ↔
            ((∃ hop ∈ hops, hop.1.held? ref = none ∧ hop.2.held? ref ≠ none) →
              m₁.core.FileHolds backing bytes))) := by
  obtain ⟨⟨id, m₀, taken, held⟩, apart, shows⟩ :=
    passes.coherent.initialized found unused whole uses used
  have holds : m₁.core.MemoryHolds ref backing (m₀.finds page.kind).contents := by
    intro now hnow i _
    rw [held] at hnow
    rw [Option.some.inj hnow]
  refine ⟨_, held, ⟨id, m₀, taken, rfl⟩, run.traced shows.sound, fun hops traced => ?_⟩
  have shielded := (traced.apart shows.sound apart).1
  have hiff := traced.keeps_iff shows shielded holds
  refine ⟨hiff, fun reloads s va length sp got read b hb href hoffset => ?_, fun unwritten => ?_⟩
  · exact traced.reads shows.sound (hiff.2 reloads) read hb href hoffset
  · rw [hiff]
    have same {hop : Core × Core} (hh : hop ∈ hops) :
        hop.1.FileHolds backing (m₀.finds page.kind).contents ↔
          m₁.core.FileHolds backing (m₀.finds page.kind).contents := by
      rw [FileHolds, FileHolds, unwritten hop hh]
    constructor
    · rintro reloads ⟨hop, hh, away, back⟩
      exact (same hh).1 (reloads hop hh away back)
    · exact fun kept hop hh away back => (same hh).2 (kept ⟨hop, hh, away, back⟩)

/-- A file has four dots and an initializer fills the page with 88 (`X`) instead. Nobody writes anything.
When the only frame was needed for something else, the dots are read. -/
theorem initialized_file_page_lost : ∃ m m₁ later m' page backing init bytes hops,
    (Machine.fresh 1 (some 16) [.ofData #[46, 46, 46, 46] false]).Passes m ∧
      m.pages.find? ⟨0, ⟨2⟩⟩ = some page ∧ page.kind = .uninit (.file backing) (some init) ∧
      claim ⟨0, ⟨2⟩⟩ m = .ok true m₁ ∧
      Run (fun _ => Operation.Spares ⟨0, ⟨2⟩⟩) m₁ later m' ∧
      m₁.core.held? ⟨0, ⟨2⟩⟩ = some bytes ∧ bytes.byteAt 0 = 88 ∧
      (∃ sp, (.read 0 (.ofBits 8192) 4 sp, .bytes (some #[46, 46, 46, 46])) ∈ later) ∧
      Traced ⟨0, ⟨2⟩⟩ m₁ later hops m' ∧
      ¬ ∀ hop ∈ hops, Reloads ⟨0, ⟨2⟩⟩ backing bytes hop := by
  have played : ((Machine.fresh 1 (some 16) [.ofData #[46, 46, 46, 46] false]).serve [
      .declare 0 (.ofBits 8192) true (.file 0 0 4)
        (some (.program (.filling 88 4 0 (.always true))))]).any (fun r =>
          decide ((r.2.pages.find? ⟨0, ⟨2⟩⟩).map (·.kind) =
            some (.uninit (.file ⟨0, 0, 4, by decide⟩) (some (.program 0)))) &&
          (r.2.outcome (claim ⟨0, ⟨2⟩⟩)).any fun r₁ => r₁.1 &&
            ((r₁.2.core.held? ⟨0, ⟨2⟩⟩).any (fun bytes => bytes.byteAt 0 == 88) &&
              (r₁.2.serve [.declare 0 (.ofBits 4096) true .anon none,
                .read 0 (.ofBits 4096) 1 (.ofBits 0)]).any fun r₂ =>
                  (r₂.2.ask [] (.read 0 (.ofBits 8192) 4 (.ofBits 0))).any fun r₃ =>
                    r₃.1.bytes? == some #[46, 46, 46, 46])) = true := by
    decide +kernel
  obtain ⟨⟨log, m⟩, hserved, hcheck⟩ := (Option.any_eq_true _ _).1 played
  obtain ⟨hkind, hcheck⟩ := Bool.and_eq_true_iff.1 hcheck
  obtain ⟨page, found, kind⟩ := Option.map_eq_some_iff.1 (of_decide_eq_true hkind)
  obtain ⟨⟨done, m₁⟩, used, hcheck⟩ := (Option.any_eq_true _ _).1 hcheck
  simp only [Bool.and_eq_true] at hcheck
  obtain ⟨rfl, hheld, hcheck⟩ := hcheck
  rw [Machine.outcome_eq_some] at used
  obtain ⟨⟨later, m₂⟩, hserved', hcheck⟩ := (Option.any_eq_true _ _).1 hcheck
  obtain ⟨⟨a, m'⟩, asked, hread⟩ := (Option.any_eq_true _ _).1 hcheck
  obtain rfl := Answer.bytes?_eq_some.1 (beq_iff_eq.1 hread)
  have passes : Machine.Passes _ m := (Machine.Reaches.refl.serve hserved).passes m.held
  have before : Run (fun _ => Operation.Spares ⟨0, ⟨2⟩⟩) m₁ ([] ++ later) m₂ :=
    .serve .nil (by simp [Operation.Spares]) hserved'
  have run := before.turn (.served [] rfl (Machine.ask_eq_some.1 asked))
    (by simp [Operation.Spares])
  have hlast : (Operation.read 0 (.ofBits 8192) 4 (.ofBits 0),
      Answer.bytes (some #[46, 46, 46, 46])) ∈
        [] ++ later ++ [(.read 0 (.ofBits 8192) 4 (.ofBits 0),
          .bytes (some #[46, 46, 46, 46]))] :=
    List.mem_append_right _ List.mem_cons_self
  obtain ⟨hs, hg⟩ := Machine.fresh_settled 1 (some 16) [.ofData #[46, 46, 46, 46] false]
  obtain ⟨-, whole⟩ := Machine.serve_quiet (by simp [Operation.Regular]) hserved hs hg
    fun _ _ => rfl
  obtain ⟨bytes, held, -, ⟨hops, traced⟩, hkept⟩ := initialized_file_page_kept_iff passes found kind
    (whole _ fun _ _ => rfl) .claimed used run
  have hbyte : bytes.byteAt 0 = 88 := by
    rw [held] at hheld
    exact beq_iff_eq.1 hheld
  refine ⟨m, m₁, _, m', page, _, _, bytes, hops, passes, found, kind, used, run, held, hbyte,
    ⟨_, hlast⟩, traced, fun reloads => ?_⟩
  have hsame : (46 : UInt8) = bytes.byteAt 0 := (hkept hops traced).2.1 reloads _ _ _ _ _ hlast
    ⟨⟨0, ⟨2⟩⟩, 0, 46⟩ List.mem_cons_self rfl (by decide)
  rw [hbyte] at hsame
  exact absurd hsame (by decide)

end DemandPaging
