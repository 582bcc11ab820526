import DemandPaging.Proofs.FaultVerdicts
import DemandPaging.Proofs.PageLives

/-!
Pages that wait. As long as a page is without a frame nothing becomes of it, whatever is done for other
pages: its slot keeps its contents, and its initializer stays what it is unless it fails for good. So it
comes back as it would have come back before, if its file has the same bytes then and its program does
the same.
-/

namespace DemandPaging

open DemandPaging.Core

variable {m m' m₁ n n₁ : Machine} {ref r : PageRef} {page page' p p' : Page}
  {kind kind' kind'' : PageKind} {id : FrameId} {slot : SwapSlot}

namespace PageKind

/-- The page is still what it was, or its initializer was given up. -/
def Persists (kind kind' : PageKind) : Prop :=
  kind' = kind ∨ ∃ target, kind' = .uninit target (some .alwaysFail)

theorem Persists.refl (kind : PageKind) : kind.Persists kind := .inl rfl

theorem Persists.trans (h : kind.Persists kind') (h' : kind'.Persists kind'') : kind.Persists kind'' := by
  rcases h' with rfl | given_up
  · exact h
  · exact .inr given_up

def origin : PageKind → Option FileBacking
  | .file backing => some backing
  | kind => kind.source

end PageKind

/-- Where it succeeds with an empty page, the routine always leaves it the same, however often it was run
before. -/
def Routine.Steady (routine : Routine) : Prop :=
  ∀ i j, (routine.run i PageBytes.zero).2 = true → (routine.run j PageBytes.zero).2 = true →
    (routine.run i PageBytes.zero).1 = (routine.run j PageBytes.zero).1

namespace Core

variable {c c' c₁ : Core} {ds : List Deed} {hops : List Hop} {bytes bytes' : PageBytes}
  {routine : Routine} {i : ProgramId}

def Away (c : Core) (ref : PageRef) : Prop :=
  ∃ page, c.pages.find? ref = some page ∧ page.frame = none

/-! What becomes of the page itself. -/

theorem persists_of_change (old : c.pages.find? r = some p) (changed : c'.pages = c.pages.insert r p')
    (same : r = ref → p'.frame = none → p.kind.Persists p'.kind)
    (found : c.pages.find? ref = some page) (found' : c'.pages.find? ref = some page')
    (away' : page'.frame = none) : page.kind.Persists page'.kind := by
  rw [changed] at found'
  rcases Table.find?_insert_eq_some.1 found' with ⟨rfl, rfl⟩ | ⟨-, found'⟩
  · cases old.symm.trans found
    exact same rfl away'
  · cases found.symm.trans found'
    exact .refl _

theorem persists_of_add (vacant : c.pages.find? r = none) (changed : c'.pages = c.pages.insert r p')
    (found : c.pages.find? ref = some page) (found' : c'.pages.find? ref = some page') :
    page.kind.Persists page'.kind := by
  rw [changed, Table.find?_insert, if_neg (ne_of_found found vacant)] at found'
  cases found.symm.trans found'
  exact .refl _

theorem persists_of_same (same : c'.pages = c.pages) (found : c.pages.find? ref = some page)
    (found' : c'.pages.find? ref = some page') : page.kind.Persists page'.kind := by
  cases found.symm.trans (same ▸ found')
  exact .refl _

theorem persists_of_erase (changed : c'.pages = c.pages.erase r)
    (found : c.pages.find? ref = some page) (found' : c'.pages.find? ref = some page') :
    page.kind.Persists page'.kind := by
  rw [changed] at found'
  cases found.symm.trans (Table.find?_erase_eq_some.1 found').2
  exact .refl _

theorem persists_of_share {src dst : PageRef} {frame : Frame} (old : c.pages.find? src = some p)
    (resident : p.frame = some id) (vacant : c.pages.find? dst = none)
    (changed : c'.pages = (c.share src dst p id frame).pages) (found : c.pages.find? ref = some page)
    (away : page.frame = none) (found' : c'.pages.find? ref = some page') :
    page.kind.Persists page'.kind := by
  have not_src : src ≠ ref := by
    rintro rfl
    cases old.symm.trans found
    exact nomatch resident.symm.trans away
  have not_dst : dst ≠ ref := by
    rintro rfl
    exact nomatch vacant.symm.trans found
  have same : c'.pages.find? ref = c.pages.find? ref := by
    rw [changed]
    refine (Table.find?_insert_of_ne (Ne.symm not_src)).trans ?_
    exact Table.find?_insert_of_ne (Ne.symm not_dst)
  cases found.symm.trans (same.symm.trans found')
  exact .refl _

theorem Step.persists (h : Step c ds c') (hs : c.Sound) (found : c.pages.find? ref = some page)
    (away : page.frame = none) (found' : c'.pages.find? ref = some page')
    (away' : page'.frame = none) : page.kind.Persists page'.kind := by
  -- kinds change where a frame is taken or left, but for the initializer of a page that failed
  cases h with
  | touch old | refuse old | own old =>
      refine persists_of_change old rfl (fun _ _ => ?_) found found' away'
      exact .refl _
  | add vacant => exact persists_of_add vacant rfl found found'
  | evict old owned saved =>
      have resident := hs.victim old owned
      obtain ⟨swap, files, rfl⟩ := saved.core_eq
      refine persists_of_change old rfl (fun hr _ => ?_) found found' away'
      cases old.symm.trans (hr ▸ found)
      exact nomatch resident.symm.trans away
  | fill old _ _ filled =>
      obtain ⟨swap, programs, rfl, -⟩ := filled.core_eq
      refine persists_of_change old rfl (fun _ resident => ?_) found found' away'
      exact nomatch resident
  | @fail _ _ _ _ _ target init kept _ old _ kind _ made kept_of =>
      obtain ⟨programs, rfl, -⟩ := made.core_eq
      refine persists_of_change old rfl (fun _ _ => ?_) found found' away'
      rcases kept_of with rfl | rfl
      · exact .inl kind.symm
      · exact .inr ⟨target, rfl⟩
  | copy old | lose old =>
      refine persists_of_change old (congrArg (Table.insert · _ _) (diverge_pages c _ _ _ _))
        (fun _ _ => ?_) found found' away'
      exact .refl _
  | share old _ vacant resident => exact persists_of_share old resident vacant rfl found away found'
  | shareHalf old _ vacant resident _ _ mapped =>
      rcases mapped with rfl | rfl
      · exact persists_of_share old resident vacant rfl found away found'
      · exact persists_of_share old resident vacant rfl found away found'
  | dropAway _ _ disposed =>
      obtain ⟨swap, files, rfl⟩ := disposed.core_eq
      exact persists_of_erase rfl found found'
  | drop _ _ _ disposed =>
      obtain ⟨swap, files, rfl⟩ := disposed.core_eq
      exact persists_of_erase (disown_pages _ _ _ _) found found'
  | _ => exact persists_of_same rfl found found'

/-! What it will come to its contents from. -/

theorem Step.keeps_slot (h : Step c ds c') (hs : c.Sound) (found : c.pages.find? ref = some page)
    (kind : page.kind = .anon (some slot)) : c'.swap.pageIn slot = c.swap.pageIn slot := by
  cases h with
  | evict _ _ saved => exact hs.saves_pageIn saved ref page slot found kind
  | fill _ _ _ filled => exact Sound.fills_pageIn filled slot
  | fail _ _ _ _ made =>
      obtain ⟨programs, rfl, -⟩ := made.core_eq
      rfl
  | copy | lose => exact congrArg (SwapArea.pageIn · slot) (disown_swap _ _ _ _)
  | shareHalf _ _ _ _ _ _ mapped =>
      rcases mapped with rfl | rfl
      · rfl
      · rfl
  | dropAway _ _ disposed => exact Sound.disposes_pageIn disposed slot
  | drop _ _ _ disposed =>
      exact (congrArg (SwapArea.pageIn · slot) (disown_swap _ _ _ _)).trans
        (Sound.disposes_pageIn disposed slot)
  | _ => rfl

theorem Produces.keeps_run {init : Initializer} {result : PageBytes × Bool}
    (h : c.Produces bytes init result c₁) (found : c.programs i = some routine) :
    ∃ routine', c₁.programs i = some routine' ∧ routine'.run = routine.run := by
  cases h with
  | @program j called there =>
      by_cases hi : i = j
      · subst hi
        cases there.symm.trans found
        exact ⟨_, Function.update_self _ _ _, rfl⟩
      · exact ⟨routine, (Function.update_of_ne hi _ _).trans found, rfl⟩
  | _ => exact ⟨routine, found, rfl⟩

theorem Fills.keeps_run (h : c.Fills ref bytes kind kind' bytes' c₁ ds)
    (found : c.programs i = some routine) :
    ∃ routine', c₁.programs i = some routine' ∧ routine'.run = routine.run := by
  cases h with
  | made made => exact made.keeps_run found
  | _ => exact ⟨routine, found, rfl⟩

theorem Step.keeps_run (h : Step c ds c') (hs : c.Sound) (found : c.programs i = some routine) :
    ∃ routine', c'.programs i = some routine' ∧ routine'.run = routine.run := by
  have same (hc : c'.programs = c.programs) :
      ∃ routine', c'.programs i = some routine' ∧ routine'.run = routine.run :=
    ⟨routine, (congrFun hc i).trans found, rfl⟩
  cases h with
  | learn =>
      refine ⟨routine, (Function.update_of_ne ?_ _ _).trans found, rfl⟩
      rintro rfl
      exact nomatch found.symm.trans (hs.programs _ (Nat.le_refl _))
  | evict _ _ saved =>
      obtain ⟨swap, files, rfl⟩ := saved.core_eq
      exact same rfl
  | fill _ _ _ filled => exact filled.keeps_run found
  | fail _ _ _ _ made => exact made.keeps_run found
  | copy | lose => exact same (disown_apart _ _ _ _).2.1
  | shareHalf _ _ _ _ _ _ mapped =>
      rcases mapped with rfl | rfl
      · exact same rfl
      · exact same rfl
  | dropAway _ _ disposed =>
      obtain ⟨swap, files, rfl⟩ := disposed.core_eq
      exact same rfl
  | drop _ _ _ disposed =>
      obtain ⟨swap, files, rfl⟩ := disposed.core_eq
      exact same (disown_apart _ _ _ _).2.1
  | _ => exact same rfl

/-- What a page that waits has at a later time of what it had before. -/
structure Awaits (c c' : Core) (page page' : Page) : Prop where
  kind : page.kind.Persists page'.kind
  stored : ∀ slot, page'.kind = .anon (some slot) → c'.swap.pageIn slot = c.swap.pageIn slot
  run : ∀ i routine, c.programs i = some routine →
    ∃ routine', c'.programs i = some routine' ∧ routine'.run = routine.run

namespace Awaits

theorem refl (c : Core) (page : Page) : c.Awaits c page page :=
  ⟨.refl _, fun _ _ => rfl, fun _ routine found => ⟨routine, found, rfl⟩⟩

theorem trans {page'' : Page} (h : c.Awaits c₁ page page') (h' : c₁.Awaits c' page' page'') :
    c.Awaits c' page page'' where
  kind := h.kind.trans h'.kind
  stored slot hk := by
    rcases h'.kind with same | ⟨target, given_up⟩
    · exact (h'.stored slot hk).trans (h.stored slot (same ▸ hk))
    · exact nomatch given_up.symm.trans hk
  run i routine found := by
    obtain ⟨routine₁, found₁, same⟩ := h.run i routine found
    obtain ⟨routine₂, found₂, same'⟩ := h'.run i routine₁ found₁
    exact ⟨routine₂, found₂, same'.trans same⟩

end Awaits

end Core

theorem Hop.Happens.awaits {hop : Hop} (h : hop.Happens) (hs : hop.before.Sound)
    (found : hop.before.pages.find? ref = some page) (away : page.frame = none)
    (found' : hop.after.pages.find? ref = some page') (away' : page'.frame = none) :
    hop.before.Awaits hop.after page page' := by
  cases h with
  | step step =>
      have persists := step.persists hs found away found' away'
      refine ⟨persists, fun slot kind => ?_, fun i routine => step.keeps_run hs⟩
      rcases persists with same | ⟨target, given_up⟩
      · exact step.keeps_slot hs found (same ▸ kind)
      · exact nomatch given_up.symm.trans kind
  | tampered =>
      cases found.symm.trans found'
      exact ⟨.refl _, fun _ _ => rfl, fun _ routine there => ⟨routine, there, rfl⟩⟩

namespace Core

theorem Course.awaits {c c' : Core} {hops : List Hop} (h : Course c hops c') (hs : c.Sound)
    (found : c.pages.find? ref = some page) (away : page.frame = none)
    (waits : ∀ hop ∈ hops, hop.after.Away ref) :
    ∃ page', c'.pages.find? ref = some page' ∧ page'.frame = none ∧ c.Awaits c' page page' := by
  induction h generalizing page with
  | nil => exact ⟨page, found, away, .refl _ page⟩
  | cons happens _ ih =>
      obtain ⟨⟨page₁, found₁, away₁⟩, rest⟩ := List.forall_mem_cons.1 waits
      obtain ⟨page', found', away', awaits⟩ := ih (happens.sound hs) found₁ away₁ rest
      exact ⟨page', found', away', (happens.awaits hs found away found₁ away₁).trans awaits⟩

end Core

/-! How it comes back. -/

/-- The ways in which a page without a frame is claimed: as such, for an access that it allows, or for a
copy of it. -/
inductive PageRef.Attempts (ref : PageRef) (page : Page) : KernelM Bool → Prop where
  | claimed : ref.Attempts page (claim ref)
  | accessed {write : Bool} (allowed : write = true → page.writable = true) :
      ref.Attempts page (resolve ref write)
  | copied : ref.Attempts page (bringBack ref page)

theorem PageRef.Attempts.claims {x : KernelM Bool} {done : Bool} (attempt : ref.Attempts page x)
    (found : m.core.pages.find? ref = some page) (away : page.frame = none) (h : x m = .ok done m') :
    claimVacant ref page m = .ok done m' := by
  cases attempt with
  | claimed =>
      obtain ⟨got, _, h₁, h⟩ := bind_ok.1 h
      obtain ⟨rfl, rfl⟩ := page?_core h₁
      rw [found] at h
      simpa only [away, Option.isSome_none, Bool.false_eq_true, if_false] using h
  | accessed allowed =>
      obtain ⟨got, _, h₁, h⟩ := bind_ok.1 h
      obtain ⟨rfl, rfl⟩ := page?_core h₁
      rw [found] at h
      dsimp only at h
      split at h
      · next refused =>
          simp only [Bool.and_eq_true, Bool.not_eq_true'] at refused
          exact nomatch (allowed refused.1).symm.trans refused.2
      · simpa only [away] using h
  | copied => simpa only [bringBack, away, Option.isSome_none, Bool.false_eq_true, if_false] using h

theorem Core.Steps.keeps_run {c c' : Core} {ds : List Deed} {i : ProgramId} {routine : Routine}
    (h : Steps c ds c') (hs : c.Sound) (found : c.programs i = some routine) :
    ∃ routine', c'.programs i = some routine' ∧ routine'.run = routine.run := by
  induction h with
  | refl => exact ⟨routine, found, rfl⟩
  | tail before step ih =>
      obtain ⟨routine₁, found₁, same⟩ := ih
      obtain ⟨routine₂, found₂, same'⟩ := step.keeps_run (before.sound hs) found₁
      exact ⟨routine₂, found₂, same'.trans same⟩

theorem Core.Steps.keeps_slot {c c' : Core} (h : Steps c [] c') (hs : c.Sound)
    (found : c.pages.find? ref = some page) (away : page.frame = none)
    (kind : page.kind = .anon (some slot)) (found' : c'.pages.find? ref = some page')
    (away' : page'.frame = none) (kind' : page'.kind = .anon (some slot)) :
    c'.swap.pageIn slot = c.swap.pageIn slot := by
  have cell {c : Core} {page : Page} (away : page.frame = none) (kind : page.kind = .anon (some slot)) :
      c.cell page = .live (c.swap.pageIn slot) := by
    rw [Core.cell, kind, Core.bytes_slot away kind]
  have silent : ¬ ∃ d ∈ ([] : List Deed), d.IsWrite := by
    rintro ⟨d, hd, -⟩
    cases hd
  have same := congrFun (h.flat hs fun wrote => (silent wrote).elim) ref
  rw [flat_found found', Deed.applyAll, List.foldl_nil, flat_found found, cell away kind,
    cell away' kind'] at same
  exact Cell.live.inj (Option.some.inj same)

def Machine.delivers (m : Machine) (kind : PageKind) : Option (Array UInt8) :=
  kind.origin.map fun backing => ((m.file backing.file).read backing.offset backing.readBytes).1

namespace Machine

theorem brings_delivered (m : Machine) (unused : kind.isUninit = true) (idle : kind.program? = none) :
    m.brings kind = ((m.delivers kind).map PageBytes.ofArray).getD PageBytes.zero := by
  rw [m.brings_first unused, Findings.contents, finds, idle, Option.bind_none]
  cases kind with
  | uninit => rfl
  | anon | file => cases unused

theorem brings_made (m : Machine) {i : ProgramId} {routine : Routine} (unused : kind.isUninit = true)
    (runs : kind.program? = some i) (there : m.core.programs i = some routine) :
    m.brings kind = (routine.run routine.calls PageBytes.zero).1 := by
  rw [m.brings_first unused, Findings.contents, finds, runs, Option.bind_some, there]

end Machine

/-- The page came back as what it was at an earlier time. -/
structure Core.Refills (c : Core) (ref : PageRef) (page : Page) (n₁ n' : Machine) : Prop where
  held : n'.core.held? ref = some (n₁.brings page.kind)
  stored : ∀ slot, page.kind = .anon (some slot) → n₁.swap.pageIn slot = c.swap.pageIn slot
  ran : ∀ i, page.kind.program? = some i → ∃ routine, n₁.core.programs i = some routine ∧
    (routine.run routine.calls PageBytes.zero).2 = true ∧
      ∀ old, c.programs i = some old → routine.run = old.run

namespace Core

variable {c : Core} {k₁ k' n' : Machine}

theorem Awaits.refills {x : KernelM Bool} (awaits : c.Awaits n.core page page') (coherent : n.Coherent)
    (found : n.core.pages.find? ref = some page') (away : page'.frame = none)
    (attempt : ref.Attempts page' x) (taken : allocateFrame n = .ok id n₁) (ran : x n = .ok true n') :
    c.Refills ref page n₁ n' := by
  have hs := coherent.sound
  have claimed := attempt.claims found away ran
  have initializes : n.initializes page'.kind = true :=
    (Bool.and_eq_true_iff.1 (claimVacant_verdict coherent claimed).symm).2
  obtain same | ⟨target, given_up⟩ := awaits.kind
  · obtain ⟨steps, -, spares⟩ := allocateFrame_core hs taken
    have programs : n₁.core.programs = n.core.programs := by
      simp only [Machine.core, (allocateFrame_rest coherent taken).2]
    rw [same] at initializes
    refine ⟨?_, fun slot kind => ?_, fun i program => ?_⟩
    · rw [← same]
      refine claimVacant_brings hs taken (fun slot kind => ?_) claimed
      exact ((steps.sound hs).slotted.held ref page' slot (spares.found_away found away) kind).2.2
    · have kept := same.trans kind
      exact (steps.keeps_slot hs found away kept (spares.found_away found away) away kept).trans
        (awaits.stored slot kept)
    · have runs : page.kind.program? = some i := program
      generalize page.kind = kind at runs initializes
      cases kind with
      | anon | file => cases runs
      | uninit target init =>
          rcases init with _ | (_ | j | _)
          · cases runs
          · cases runs
          · cases runs
            obtain ⟨routine, there, succeeds⟩ := (Option.any_eq_true _ _).1 initializes
            refine ⟨routine, (congrFun programs i).trans there, succeeds, fun old was => ?_⟩
            obtain ⟨routine', there', same_run⟩ := awaits.run i old was
            cases there.symm.trans there'
            exact same_run
          · cases runs
  · rw [given_up] at initializes
    cases initializes

theorem Refills.agree (h : c.Refills ref page n₁ n') (h' : c.Refills ref page k₁ k')
    (delivered : n₁.delivers page.kind = k₁.delivers page.kind)
    (programs : ∀ i, page.kind.program? = some i → n₁.core.programs i = k₁.core.programs i ∨
      ∃ routine, c.programs i = some routine ∧ routine.Steady) :
    n'.core.held? ref = k'.core.held? ref := by
  rw [h.held, h'.held]
  refine congrArg some ?_
  cases hk : page.kind with
  | uninit target init =>
      rw [← hk]
      have unused : page.kind.isUninit = true := by
        rw [hk]
        rfl
      cases program : page.kind.program? with
      | none => rw [n₁.brings_delivered unused program, k₁.brings_delivered unused program, delivered]
      | some i =>
          obtain ⟨routine, there, succeeds, old_run⟩ := h.ran i program
          obtain ⟨routine', there', succeeds', old_run'⟩ := h'.ran i program
          rw [n₁.brings_made unused program there, k₁.brings_made unused program there']
          rcases programs i program with same | ⟨old, was, steady⟩
          · rw [there, there'] at same
            cases same
            rfl
          · rw [old_run old was] at succeeds ⊢
            rw [old_run' old was] at succeeds' ⊢
            exact steady _ _ succeeds succeeds'
  | anon slot =>
      cases slot with
      | none => rfl
      | some slot => exact (h.stored slot hk).trans (h'.stored slot hk).symm
  | file backing =>
      rw [hk] at delivered
      exact congrArg PageBytes.ofArray (Option.some.inj delivered)

end Core

/-- A claim of the page succeeds, of whatever kind, when there was no frame for it since; the machine
before the page is filled, when the frame was taken, and afterwards. -/
inductive Machine.BringsBack (m : Machine) (ref : PageRef) (n₁ n' : Machine) : Prop where
  | intro {n : Machine} {hops : List Hop} {page : Page} {x : KernelM Bool} {id : FrameId} {frames : Nat}
      {sectors : Option Nat} {files : List File}
      {allocator : Allocator} (passes : (Machine.fresh frames sectors files allocator).Passes n)
      (course : Course m.core hops n.core) (waits : ∀ hop ∈ hops, hop.after.Away ref)
      (found : n.pages.find? ref = some page) (attempt : ref.Attempts page x)
      (taken : allocateFrame n = .ok id n₁) (ran : x n = .ok true n')

theorem Machine.BringsBack.refills {c : Core} {n' : Machine} (h : m.BringsBack ref n₁ n')
    (hs : m.core.Sound) (found : m.core.pages.find? ref = some page') (away : page'.frame = none)
    (awaits : c.Awaits m.core page page') : c.Refills ref page n₁ n' := by
  obtain ⟨passes, course, waits, there, attempt, taken, ran⟩ := h
  obtain ⟨page'', found', away', later⟩ := course.awaits hs found away waits
  cases found'.symm.trans there
  exact (awaits.trans later).refills passes.coherent there away' attempt taken ran

end DemandPaging
