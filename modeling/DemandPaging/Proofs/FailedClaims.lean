import DemandPaging.Proofs.SharedWrites
import DemandPaging.Proofs.WaitingPages

/-!
Claims that fail. The page table refuses the entry or the initializer gives up; either way a frame was
taken before, perhaps from another page. What is left of the attempt is the page that lost its frame to
it and the initializer's copy, which is there for the next one.
-/

namespace DemandPaging

open DemandPaging.Core
open Keeps

variable {m m' m₁ : Machine} {ref : PageRef} {page page' : Page} {kind kind' : PageKind} {id : FrameId}
  {phys : PhysPage} {init : Initializer} {frames : Nat} {sectors : Option Nat} {files : List File}
  {allocator : Allocator}

namespace Machine

/-- What is kept of an initializer that failed. One that reads from a file never does. -/
def retry (m : Machine) : Initializer → Initializer
  | .program id =>
      if (m.programs.find? id).any fun routine => routine.copies.next.1 then .program id else .alwaysFail
  | init => init

def kept (m : Machine) : PageKind → PageKind
  | .uninit target (some init) => .uninit target (some (m.retry init))
  | kind => kind

/-- What a page is after an attempt that failed: nothing has become of it when its page table refused the
entry, since its initializer was not run then. -/
def after (m : Machine) (page : Page) : PageKind :=
  if m.takesEntry page.table then m.kept page.kind else page.kind

theorem kept_congr (same : m'.programs = m.programs) (kind : PageKind) : m'.kept kind = m.kept kind := by
  unfold kept
  split
  · next target init =>
      cases init with
      | program id => simp only [retry, same]
      | segment | alwaysFail => rfl
  · rfl

end Machine

theorem Initializer.duplicate_program {p : ProgramId} {copy : Option Initializer}
    (h : (Initializer.program p).duplicate m = .ok copy m') :
    copy.getD .alwaysFail = m.retry (.program p) ∧ m'.files = m.files := by
  replace h := bind_get_ok.1 h
  rw [Machine.retry]
  cases found : m.programs.find? p with
  | none =>
      simp only [found] at h
      obtain ⟨hcopy, rfl⟩ := pure_ok.1 h
      cases hcopy
      exact ⟨rfl, rfl⟩
  | some routine =>
      simp only [found] at h
      obtain ⟨_, m₁, h₂, h⟩ := bind_ok.1 h
      obtain rfl := set_ok.1 h₂
      obtain ⟨hcopy, rfl⟩ := pure_ok.1 h
      cases hcopy
      rw [Option.any_some]
      refine ⟨?_, rfl⟩
      split <;> rfl

theorem Initializer.run_failed {bytes made : PageBytes} (h : init.run bytes m = .ok (made, false) m') :
    (∀ backing, init ≠ .segment backing) ∧ m'.files = m.files := by
  cases init with
  | segment backing =>
      obtain ⟨_, _, -, h⟩ := bind_ok.1 h
      obtain ⟨_, _, -, h⟩ := bind_ok.1 h
      cases (pure_ok.1 h).1
  | program p =>
      refine ⟨fun _ same => (by cases same), ?_⟩
      replace h := bind_get_ok.1 h
      cases found : m.programs.find? p with
      | none =>
          simp only [found] at h
          rw [(pure_ok.1 h).2]
      | some routine =>
          simp only [found] at h
          obtain ⟨_, m₁, h₂, h⟩ := bind_ok.1 h
          obtain rfl := set_ok.1 h₂
          rw [← (pure_ok.1 h).2]
  | alwaysFail => exact ⟨fun _ same => (by cases same), by rw [(pure_ok.1 h).2]⟩

theorem PageKind.fill_failed (h : kind.fill phys m = .ok (kind', false) m') :
    kind' = m.kept kind ∧ m'.files = m.files := by
  cases fill_filled h with
  | @failed target init retry _ m₁ m₂ _ copied ran wrote =>
      obtain ⟨plain, unread⟩ := Initializer.run_failed ran
      have same : m'.files = m₁.files := (writePhys_keeps _ _ wrote : _ = m₂.files).trans unread
      cases init with
      | segment backing => exact (plain backing rfl).elim
      | program p =>
          obtain ⟨hcopy, unopened⟩ := Initializer.duplicate_program copied
          exact ⟨by rw [Machine.kept, hcopy], same.trans unopened⟩
      | alwaysFail =>
          obtain ⟨hcopy, rfl⟩ := pure_ok.1 copied
          cases hcopy
          exact ⟨rfl, same⟩

theorem mapAndFill_failed (h : mapAndFill ref page phys m = .ok (kind, false) m') :
    kind = m.after page ∧ m'.files = m.files ∧
      (m.takesEntry page.table = false → m'.programs = m.programs) := by
  rw [Machine.after]
  rcases mapAndFill_parts h with ⟨m₁, m₂, granted, told, filled⟩ | ⟨failed, refused⟩
  · have asked : true = m.takesEntry page.table := install_verdict granted
    have programs : m₁.programs = m.programs := install_keeps _ _ _ granted
    have files : m₁.files = m.files := install_keeps _ _ _ granted
    obtain rfl := emit_ok.1 told
    obtain ⟨hkind, same⟩ := PageKind.fill_failed filled
    rw [← asked]
    exact ⟨hkind.trans (Machine.kept_congr (by exact programs) page.kind), same.trans files, nofun⟩
  · have asked : false = m.takesEntry page.table := install_verdict refused
    cases failed
    rw [← asked]
    exact ⟨rfl, install_keeps _ _ _ refused, fun _ => install_keeps _ _ _ refused⟩

namespace Core

variable {c c' c₁ : Core} {ds : List Deed}

/-- The frame that a page was about to get is no more, its physical page is in the pool, and the page is
without an entry; the other pages have not noticed. -/
structure GivesUp (c : Core) (ref : PageRef) (page' : Page) (id : FrameId) (c' : Core) : Prop where
  pages : c'.pages = c.pages.insert ref page'
  mappings : c'.mappings = c.mappings.erase ref
  frames : c'.frames.find? = Function.update c.frames.find? id none
  free : c'.memory.pool.free = c.memory.pool.free + 1
  swap : c'.swap = c.swap
  files : c'.files = c.files
  looks : ∀ r, r ≠ ref → c'.looks r = c.looks r

theorem Sound.gives_up (hs : c.Sound) (found : c.pages.find? ref = some page)
    (free : c.frames.find? id = some ⟨phys, []⟩) (memory : Memory) (programs : ProgramId → Option Routine)
    (pool : memory.pool = c.memory.pool) (same : ∀ p, p ≠ phys → memory.read p = c.memory.read p) :
    c.GivesUp ref page' id (((Core.giveBack { c with memory, programs } id phys).unmap
      (page.entryRef ref)).setPage ref page') := by
  rw [hs.entryRef found]
  refine ⟨rfl, rfl, FrameTable.find?_remove_eq _ _, ?_, rfl, rfl, fun r hr => ?_⟩
  · rw [← pool]
    exact Pool.free_give memory.pool phys
  · exact hs.looks_others free List.not_mem_nil (Table.find?_insert_of_ne hr)
      (fun _ => FrameTable.find?_remove_of_ne) same
      (Table.find?_erase_of_ne hr)

theorem Claims.gives_up (h : c.Claims ref page id (kind, false) ds c') (hs : c.Sound)
    (found : c.pages.find? ref = some page) :
    c.GivesUp ref { page with frame := none, cow := false, kind } id c' := by
  cases h with
  | refused free => exact hs.gives_up found free c.memory c.programs rfl fun _ _ => rfl
  | @failed _ _ _ bytes phys _ free _ made =>
      obtain ⟨programs, rfl, -⟩ := made.core_eq
      exact hs.gives_up found free (c.memory.write phys bytes) programs rfl fun _ => Memory.read_write_of_ne

end Core

namespace Machine

/-- The page, its entry and what memory holds of it are the same. -/
def Undisturbed (m m' : Machine) (ref : PageRef) : Prop :=
  m'.pages.find? ref = m.pages.find? ref ∧ m'.mappings.find? ref = m.mappings.find? ref ∧
    m'.core.looks ref = m.core.looks ref

/-- What is left of an attempt for a page, besides the page: nothing, when the frame came from the pool,
and else the eviction of the page it was taken from. The frame is in the pool afterwards. -/
inductive Restores (m : Machine) (ref : PageRef) (m' : Machine) : Prop where
  | pooled (frames : m'.frames.find? = m.frames.find?) (free : m'.memory.pool.free = m.memory.pool.free)
      (swap : m'.swap = m.swap) (files : m'.files = m.files)
      (others : ∀ r, r ≠ ref → m.Undisturbed m' r)
  | evicted {refused rest : List Victim} {v : Victim} {kind : PageKind}
      (empty : m.memory.pool.free = 0) (split : m.victims = refused ++ v :: rest)
      (refuses : m.RefusesAll refused) (can : (m.triedAll refused).CanSave v)
      (saved : (m.triedAll refused).Saved v kind m'.swap m'.files) (other : v.ref ≠ ref)
      (gone : m'.pages.find? v.ref = some { v.page with kind, frame := none, cow := false } ∧
        m'.mappings.find? v.ref = none)
      (frames : m'.frames.find? = Function.update m.frames.find? v.id none)
      (free : m'.memory.pool.free = 1) (others : ∀ r, r ≠ ref → r ≠ v.ref → m.Undisturbed m' r)

theorem restores_pooled {memory : Memory} (hs : m.core.Sound)
    (had : m.core.memory.acquire? = some (phys, memory))
    (gives : Core.GivesUp { m.core with memory, frames := (m.core.frames.add ⟨phys, []⟩).2 } ref page'
      (m.core.frames.add ⟨phys, []⟩).1 m'.core) (files : m'.files = m.files) : m.Restores ref m' := by
  obtain ⟨-, new, added, -⟩ := hs.add_frame ⟨phys, []⟩
  refine .pooled ?_ ?_ gives.swap files fun r hr => ⟨?_, ?_, ?_⟩
  · refine gives.frames.trans ?_
    rw [added, Function.update_idem, ← new]
    exact Function.update_eq_self _ _
  · exact gives.free.trans (Memory.free_of_acquired had).symm
  · rw [show m'.pages = m.pages.insert ref page' from gives.pages]
    exact Table.find?_insert_of_ne hr
  · rw [show m'.mappings = m.mappings.erase ref from gives.mappings]
    exact Table.find?_erase_of_ne hr
  · exact (gives.looks r hr).trans (congrFun (hs.looks_acquire had) r)

theorem looks_taken {v : Victim} {swap : SwapArea} {files : Table FileId File} {console : List Event}
    (hs : m.core.Sound) (stands : v.Stands m.core) {r : PageRef} (hr : r ≠ v.ref) :
    ({ m with swap, files, console }.take v kind).core.looks r = m.core.looks r := by
  refine hs.looks_others stands.2 (fun owner => hr (List.mem_singleton.1 owner))
    (Table.find?_insert_of_ne hr) (fun i hi => ?_) (fun p hp => ?_)
    (Table.find?_erase_of_ne hr)
  · exact FrameTable.find?_update_of_ne hi
  · exact Memory.read_write_of_ne hp

theorem restores_evicted (hs : m.core.Sound) (found : m.core.pages.find? ref = some page)
    (away : page.frame = none) (none_free : m.memory.acquire? = none)
    (evicts : m.Evicts m.victims (some id) m₁) (gives : m₁.core.GivesUp ref page' id m'.core)
    (files : m'.files = m₁.files) : m.Restores ref m' := by
  generalize hgot : some id = got at evicts
  cases evicts with
  | none => exact nomatch hgot
  | @some refused rest v kind swap filed console split refuses can saved =>
      cases hgot
      have stands : v.Stands m.core := victims_stand (split ▸ List.mem_append_right _ List.mem_cons_self)
      have other : v.ref ≠ ref := by
        intro he
        cases found.symm.trans (he ▸ stands.1)
        exact nomatch away.symm.trans (hs.victim stands.1 stands.2)
      have empty : m.memory.pool.free = 0 := Memory.free_of_acquire none_free
      have taken_pages : m'.pages = (m.pages.insert v.ref
          { v.page with kind, frame := none, cow := false }).insert ref page' := gives.pages
      have taken_mappings : m'.mappings = (m.mappings.erase v.ref).erase ref := gives.mappings
      have saved' : (m.triedAll refused).Saved v kind m'.swap m'.files := by
        rw [show m'.swap = swap from gives.swap, files]
        exact saved
      refine .evicted empty split refuses can saved' other ⟨?_, ?_⟩ ?_ ?_ fun r hr hv => ⟨?_, ?_, ?_⟩
      · rw [taken_pages, Table.find?_insert, if_neg (Ne.symm other), Table.find?_insert, if_pos rfl]
      · rw [taken_mappings, Table.find?_erase, if_neg (Ne.symm other), Table.find?_erase, if_pos rfl]
      · refine gives.frames.trans ?_
        have cleared := FrameTable.find?_update_eq m.frames v.id ⟨v.phys, []⟩
        exact (congrArg (Function.update · v.id none) cleared).trans (Function.update_idem _ _ _)
      · exact gives.free.trans (congrArg (· + 1) empty)
      · rw [taken_pages, Table.find?_insert, if_neg (Ne.symm hr), Table.find?_insert, if_neg (Ne.symm hv)]
      · rw [taken_mappings, Table.find?_erase, if_neg (Ne.symm hr), Table.find?_erase, if_neg (Ne.symm hv)]
      · exact (gives.looks r hr).trans (looks_taken hs stands hv)

end Machine

/-- A page for which a claim failed is as it was, but for what its initializer left, and nothing else is
left of the attempt but the eviction of the page whose frame was taken for it. -/
theorem claimVacant_restores (coherent : m.Coherent) (found : m.core.pages.find? ref = some page)
    (h : claimVacant ref page m = .ok false m') :
    m'.pages.find? ref = some { page with frame := none, cow := false, kind := m.after page } ∧
      m'.mappings.find? ref = none ∧ m.Restores ref m' ∧
      (m.takesEntry page.table = false → m'.core.programs = m.core.programs) := by
  have hs := coherent.sound
  cases claimVacant_claimed hs h with
  | @intro m₁ m₂ m₃ id phys kind ds away taken spares linked link_call filled claims left =>
      obtain ⟨steps, -⟩ := allocateFrame_core hs taken
      obtain ⟨installs, programs⟩ := allocateFrame_rest coherent taken
      obtain ⟨hkind, files, idle⟩ := mapAndFill_failed filled
      have gives := claims.gives_up (steps.sound hs) (spares.found_away found away)
      have asks : m₂.takesEntry page.table = m.takesEntry page.table :=
        Machine.takesEntry_congr ((link_keeps _ _ link_call : m₂.installs = m₁.installs).trans installs) _
      have runs : m₂.programs = m.programs :=
        (link_keeps _ _ link_call : m₂.programs = m₁.programs).trans programs
      have after : kind = m.after page := by
        rw [hkind, Machine.after, Machine.after, asks, Machine.kept_congr runs]
      have filed : m'.files = m₁.files :=
        left.1.trans (files.trans (link_keeps _ _ link_call : m₂.files = m₁.files))
      refine ⟨?_, ?_, ?_, fun refused => ?_⟩
      · rw [show m'.pages = m₁.pages.insert ref _ from gives.pages, Table.find?_insert, if_pos rfl, after]
      · rw [show m'.mappings = m₁.mappings.erase ref from gives.mappings, Table.find?_erase, if_pos rfl]
      · rcases allocateFrame_ok coherent taken with ⟨phys, memory, console, had, rfl, rfl⟩ |
          ⟨none_free, evicts⟩
        · exact Machine.restores_pooled hs had gives filed
        · exact Machine.restores_evicted hs found away none_free evicts gives filed
      · have same : m'.programs = m.programs := left.2.trans ((idle (asks.trans refused)).trans runs)
        simp only [Machine.core, same]

theorem Machine.after_persists (m : Machine) (page : Page) : page.kind.Persists (m.after page) := by
  unfold after
  split
  · cases page.kind with
    | uninit target init =>
        rcases init with _ | (_ | p | _)
        · exact .refl _
        · exact .refl _
        · rw [kept, retry]
          split
          · exact .refl _
          · exact .inr ⟨target, rfl⟩
        · exact .refl _
    | anon | file => exact .refl _
  · exact .refl _

theorem claimVacant_awaits (coherent : m.Coherent) (found : m.core.pages.find? ref = some page)
    (h : claimVacant ref page m = .ok false m') : m.core.Awaits m'.core page
      { page with frame := none, cow := false, kind := m.after page } := by
  have hs := coherent.sound
  obtain ⟨ds, steps, -, idle, -⟩ := claimVacant_core hs found h
  have found' := (claimVacant_restores coherent found h).1
  have persists := m.after_persists page
  refine ⟨persists, fun slot kind => ?_, fun i routine => steps.keeps_run hs⟩
  rcases persists with same | ⟨target, given_up⟩
  · have kept : page.kind = .anon (some slot) := same.symm.trans kind
    rw [idle (by rw [kept]; rfl)] at steps
    exact steps.keeps_slot hs found (claimVacant_parts h).1 kept found' rfl kind
  · exact nomatch given_up.symm.trans kind

/-- A claim of a page without a frame, however it comes about, fails only where the page table refuses the
entry or the initializer fails. Then the page is as it was, with what it had in its slot and what is left
of its initializer, and no frame is held for it; nothing else has changed, unless a page was evicted for
it. When the page comes back later, it is with the contents it would have come back with otherwise: given
the same bytes of its file, and that its program was run as often or makes the same of an empty page
anyway. -/
theorem failed_claim_undone (passes : (Machine.fresh frames sectors files allocator).Passes m)
    (found : m.pages.find? ref = some page) (away : page.frame = none) {x : KernelM Bool}
    (attempt : ref.Attempts page x) (ran : x m = .ok false m') :
    (m.takesEntry page.table && m.initializes page.kind) = false ∧
    m'.pages.find? ref = some { page with kind := m.after page } ∧ m'.mappings.find? ref = none ∧
    (∀ id frame, m'.frames.find? id = some frame → ref ∉ frame.owners) ∧
    (∀ slot, page.kind = .anon (some slot) →
      m'.swap.holds slot = true ∧ m'.swap.pageIn slot = m.swap.pageIn slot) ∧
    m.Restores ref m' ∧
    (m.takesEntry page.table = false → m'.core.programs = m.core.programs) ∧
    ∀ n₁ n' k₁ k', m'.BringsBack ref n₁ n' → m.BringsBack ref k₁ k' →
      n₁.delivers page.kind = k₁.delivers page.kind →
      (∀ i, page.kind.program? = some i → n₁.core.programs i = k₁.core.programs i ∨
        ∃ routine, m.core.programs i = some routine ∧ routine.Steady) →
      ∃ bytes, n'.core.held? ref = some bytes ∧ k'.core.held? ref = some bytes := by
  have coherent := passes.coherent
  have failed := attempt.claims found away ran
  obtain ⟨there, unmapped, restores, idle⟩ := claimVacant_restores coherent found failed
  obtain ⟨ds, steps, -⟩ := claimVacant_core coherent.sound found failed
  have hs' := steps.sound coherent.sound
  have awaits := claimVacant_awaits coherent found failed
  have exclusive : page.cow = false := by
    by_contra shared
    exact passes.anchored ref page found (Bool.not_eq_false _ ▸ shared) away
  have same : ({ page with frame := none, cow := false, kind := m.after page } : Page) =
      { page with kind := m.after page } := by
    rw [← away, ← exclusive]
  refine ⟨(claimVacant_verdict coherent failed).symm, same ▸ there, unmapped, fun id frame owned mem => ?_,
    fun slot kind => ?_, restores, idle, fun n₁ n' k₁ k' again instead delivered programs => ?_⟩
  · obtain ⟨page', there', resident⟩ := hs'.owned.page_of id frame ref owned mem
    cases there.symm.trans there'
    exact nomatch resident
  · have kept : m.after page = .anon (some slot) := by
      rw [Machine.after, kind]
      exact ite_self _
    exact ⟨(hs'.slotted.held ref _ slot there kept).1, awaits.stored slot kept⟩
  · have refilled := again.refills hs' there rfl awaits
    have refilled' := instead.refills coherent.sound found away (.refl _ page)
    exact ⟨_, refilled.held, (refilled.agree refilled' delivered programs).symm.trans refilled.held⟩

/-- The page table of a space refuses the first entry. By then the page of another space has lost the
only frame, which is in the pool afterwards; the page that was to get it comes back with its part of the
file at the second claim, as it would have come if the entry had been taken at once. -/
theorem failed_claim_undone_with_one_frame : ∃ m page m' n₁ n' k₁ k' bytes,
    (Machine.fresh 1 (some 16) [.ofData #[1, 2, 3] false]).Passes m ∧
    m.pages.find? ⟨1, ⟨2⟩⟩ = some page ∧ page.frame = none ∧ claim ⟨1, ⟨2⟩⟩ m = .ok false m' ∧
    m.core.held? ⟨0, ⟨1⟩⟩ ≠ none ∧ m'.core.held? ⟨0, ⟨1⟩⟩ = none ∧ m.Restores ⟨1, ⟨2⟩⟩ m' ∧
    m'.BringsBack ⟨1, ⟨2⟩⟩ n₁ n' ∧ m.BringsBack ⟨1, ⟨2⟩⟩ k₁ k' ∧
    n'.core.held? ⟨1, ⟨2⟩⟩ = some bytes ∧ k'.core.held? ⟨1, ⟨2⟩⟩ = some bytes ∧
    bytes.byteAt 2 = 3 := by
  have played : ((Machine.fresh 1 (some 16) [.ofData #[1, 2, 3] false]).serve [.newSpace,
      .declare 0 (.ofBits 4096) true .anon none, .write 0 (.ofBits 4096) #[9] (.ofBits 0),
      .declare 1 (.ofBits 8192) true .anon (some (.segment 0 0 3)),
      .setInstalls 1 ⟨fun i => decide (i ≠ 0), 0⟩]).any (fun r =>
        (r.2.core.held? ⟨0, ⟨1⟩⟩).isSome && (r.2.pages.find? ⟨1, ⟨2⟩⟩).any fun page =>
          (page.frame.isNone && (page.kind.isUninit && page.kind.program?.isNone)) &&
          (r.2.outcome (claim ⟨1, ⟨2⟩⟩)).any fun u => (!u.1 && (u.2.core.held? ⟨0, ⟨1⟩⟩).isNone) &&
          (u.2.outcome allocateFrame).any fun x => (u.2.outcome (claim ⟨1, ⟨2⟩⟩)).any fun y =>
          (r.2.ask [] (.setInstalls 1 (.always true))).any fun v =>
          (v.2.outcome allocateFrame).any fun z => (v.2.outcome (claim ⟨1, ⟨2⟩⟩)).any fun w =>
            (decide (x.2.delivers page.kind = some #[1, 2, 3]) &&
              decide (z.2.delivers page.kind = some #[1, 2, 3])) && (y.1 && w.1 &&
                (y.2.core.held? ⟨1, ⟨2⟩⟩).any fun bytes => bytes.byteAt 2 == 3)) = true := by
    decide +kernel
  obtain ⟨⟨log, m⟩, hserved, hcheck⟩ := (Option.any_eq_true _ _).1 played
  obtain ⟨hheld, hcheck⟩ := Bool.and_eq_true_iff.1 hcheck
  obtain ⟨page, found, hcheck⟩ := (Option.any_eq_true _ _).1 hcheck
  simp only [Bool.and_eq_true, Option.isNone_iff_eq_none] at hcheck
  obtain ⟨⟨away, unused, plain⟩, hcheck⟩ := hcheck
  obtain ⟨⟨done, m'⟩, hclaim, hcheck⟩ := (Option.any_eq_true _ _).1 hcheck
  simp only [Bool.and_eq_true, Bool.not_eq_true', Option.isNone_iff_eq_none] at hcheck
  obtain ⟨⟨rfl, hgone⟩, hcheck⟩ := hcheck
  obtain ⟨⟨id, n₁⟩, htaken, hcheck⟩ := (Option.any_eq_true _ _).1 hcheck
  obtain ⟨⟨again, n'⟩, hclaim', hcheck⟩ := (Option.any_eq_true _ _).1 hcheck
  obtain ⟨⟨a, k⟩, hasked, hcheck⟩ := (Option.any_eq_true _ _).1 hcheck
  obtain ⟨⟨id', k₁⟩, htaken', hcheck⟩ := (Option.any_eq_true _ _).1 hcheck
  obtain ⟨⟨instead, k'⟩, hclaim'', hcheck⟩ := (Option.any_eq_true _ _).1 hcheck
  simp only [Bool.and_eq_true, decide_eq_true_eq] at hcheck
  obtain ⟨⟨delivered, delivered'⟩, ⟨rfl, rfl⟩, hbytes⟩ := hcheck
  obtain ⟨bytes, held, third⟩ := (Option.any_eq_true _ _).1 hbytes
  rw [Machine.outcome_eq_some] at hclaim htaken hclaim' htaken' hclaim''
  rw [Machine.ask_eq_some] at hasked
  have reaches := Machine.Reaches.refl.serve hserved
  have passes : Machine.Passes _ m := reaches.passes m.held
  have attempt : PageRef.Attempts ⟨1, ⟨2⟩⟩ page (claim ⟨1, ⟨2⟩⟩) := .claimed
  obtain ⟨-, there, -, -, -, restores, -, retry⟩ :=
    failed_claim_undone passes found away attempt hclaim
  have brings : m'.BringsBack ⟨1, ⟨2⟩⟩ n₁ n' := by
    obtain ⟨ds, steps, -⟩ := claimVacant_core passes.sound found (attempt.claims found away hclaim)
    exact .intro ⟨m, ds, reaches, steps⟩ .nil nofun there .claimed htaken hclaim'
  have brings' : m.BringsBack ⟨1, ⟨2⟩⟩ k₁ k' := by
    have passes' : Machine.Passes _ k := (reaches.served [] hasked).passes k.held
    obtain ⟨_, _, hset, hdone⟩ := bind_ok.1 hasked
    obtain rfl := modify_ok.1 hset
    obtain ⟨-, rfl⟩ := pure_ok.1 hdone
    refine .intro passes' (.cons (.tampered passes'.sound) .nil) (fun hop hmem => ?_) found .claimed
      htaken' hclaim''
    rw [List.mem_singleton.1 hmem]
    exact ⟨page, found, away⟩
  obtain ⟨_, held', instead⟩ := retry n₁ n' k₁ k' brings brings' (delivered.trans delivered'.symm)
    fun i runs => nomatch plain.symm.trans runs
  cases held.symm.trans held'
  exact ⟨m, page, m', n₁, n', k₁, k', bytes, passes, found, away, hclaim,
    Option.isSome_iff_ne_none.1 hheld, hgone, restores, brings, brings', held, instead,
    beq_iff_eq.1 third⟩

end DemandPaging
