import DemandPaging.Proofs.Charts
import DemandPaging.Proofs.FirstContents
import DemandPaging.Proofs.Reports

/-!
The lives of pages, from when a page comes to an address to when it is taken away there. What a page is
said to be at first it is all its life, and it is put to use once: its initializer is not run any more
when it has succeeded.
-/

namespace DemandPaging

open DemandPaging.Core
open Keeps

variable {m m' m₁ : Machine} {ref : PageRef} {page : Page} {op : Operation} {a : Answer} {done : Bool}
  {frames : Nat} {sectors : Option Nat} {files : List File}
  {allocator : Allocator} {log : List Exchange}

theorem Deed.Settles.unique {d : Deed} {r : PageRef} (h : d.Settles ref) (h' : d.Settles r) : r = ref := by
  cases d with
  | make | fail => exact h'.symm.trans h
  | _ => exact h.elim

namespace Core

variable {c c' c₁ : Core} {ds : List Deed} {d : Deed} {bytes bytes' : PageBytes} {id : FrameId}
  {kind kind' : PageKind}

def Unused (c : Core) (ref : PageRef) : Prop :=
  ∃ page, c.pages.find? ref = some page ∧ page.kind.isUninit = true

def Used (c : Core) (ref : PageRef) : Prop :=
  ∃ page, c.pages.find? ref = some page ∧ page.kind.isUninit = false

theorem Used.not_unused (h : c.Used ref) : ¬ c.Unused ref := by
  rintro ⟨page, found, unused⟩
  obtain ⟨page', found', used⟩ := h
  cases found.symm.trans found'
  exact nomatch unused.symm.trans used

theorem unused_or_used (there : c.pages.find? ref ≠ none) : c.Unused ref ∨ c.Used ref := by
  obtain ⟨page, found⟩ := Option.ne_none_iff_exists'.1 there
  cases unused : page.kind.isUninit with
  | true => exact .inl ⟨page, found, unused⟩
  | false => exact .inr ⟨page, found, unused⟩

/-- Nothing is held for the page, neither a frame nor a slot, and no entry is there for it. -/
structure Bare (c : Core) (ref : PageRef) (page : Page) : Prop where
  away : page.frame = none
  unowned : ∀ id frame, c.frames.find? id = some frame → ref ∉ frame.owners
  unsaved : page.kind.slot? = none
  unmapped : c.mappings.find? ref = none

theorem Sound.bare (hs : c.Sound) (found : c.pages.find? ref = some page)
    (unused : page.kind.isUninit = true) : c.Bare ref page := by
  have away := hs.owned.unused ref page found unused
  refine ⟨away, fun id frame owned mem => ?_, ?_, ?_⟩
  · obtain ⟨other, there, resident⟩ := hs.owned.page_of id frame ref owned mem
    cases found.symm.trans there
    exact nomatch away.symm.trans resident
  · generalize page.kind = kind at unused
    cases kind with
    | uninit => rfl
    | anon | file => exact nomatch unused
  · cases entry : c.mappings.find? ref with
    | none => rfl
    | some mapping =>
        obtain ⟨other, id, frame, there, resident, -⟩ := hs.mapped ref mapping entry
        cases found.symm.trans there
        exact nomatch away.symm.trans resident

theorem Step.stays (h : Step c ds c') (there : c'.pages.find? ref ≠ none) : .drop ref ∉ ds := by
  intro hd
  cases h with
  | fill _ _ _ filled => exact (filled.settles.1 _ hd).elim
  | dropAway _ _ disposed =>
      cases List.mem_singleton.1 hd
      obtain ⟨swap, files, rfl⟩ := disposed.core_eq
      exact there Table.find?_erase_self
  | drop _ _ _ disposed =>
      cases List.mem_singleton.1 hd
      obtain ⟨swap, files, rfl⟩ := disposed.core_eq
      refine there ?_
      rw [disown_pages]
      exact Table.find?_erase_self
  | chart | add | fail | lose | share | shareHalf | read | write => exact nomatch List.mem_singleton.1 hd
  | _ => exact nomatch hd

theorem Fills.makes (h : c.Fills ref bytes kind kind' bytes' c₁ ds) (hd : d ∈ ds) :
    ∃ init, d = .make ref init bytes' := by
  cases h with
  | zero | slot | file => exact nomatch hd
  | newAnon | newFile | made => exact ⟨_, List.mem_singleton.1 hd⟩

theorem Step.settles (h : Step c ds c') (hs : c.Sound) (hd : d ∈ ds) (settles : d.Settles ref) :
    c.Unused ref ∧ ((∃ init bytes, d = .make ref init bytes ∧ c'.Used ref ∧ c'.Lets ref false ∧
      c'.held? ref = some bytes) ∨ ∃ kept, d = .fail ref kept ∧ c'.Unused ref) := by
  cases h with
  | @fill _ r page id phys kind bytes _ found away free filled =>
      obtain rfl := settles.unique (filled.settles.1 d hd)
      have unused : page.kind.isUninit = true := by
        by_contra used
        rw [filled.settles.2 (Bool.not_eq_true _ ▸ used)] at hd
        exact nomatch hd
      refine ⟨⟨page, found, unused⟩, .inl ?_⟩
      have lets : (Core.stamp _ _ _).Lets r false :=
        (Claims.filled free filled).lets (hs.entryRef found) nofun
      obtain ⟨init, rfl⟩ := filled.makes hd
      have used := filled.used.1
      obtain ⟨swap, programs, rfl, -⟩ := filled.core_eq
      generalize hc : Core.write _ phys bytes = c₁ at lets ⊢
      have owned : c₁.frames.find? id = some ⟨phys, [r]⟩ := by
        rw [← hc]
        exact FrameTable.find?_update_self
      have there := stamp_found c₁ r { page with frame := some id, cow := false, kind }
      refine ⟨init, bytes, rfl, ⟨_, there, used⟩, lets, ?_⟩
      rw [held_resident (c := c₁.stamp r _) there rfl owned, ← hc]
      exact congrArg some Memory.read_write_self
  | fail found away kind free made =>
      cases List.mem_singleton.1 hd
      obtain rfl : _ = ref := settles
      exact ⟨⟨_, found, by rw [kind]; rfl⟩, .inr ⟨_, rfl, _, Table.find?_insert_self, rfl⟩⟩
  | chart | add | lose | share | shareHalf | read | write | dropAway | drop =>
      cases List.mem_singleton.1 hd
      exact settles.elim
  | _ => exact nomatch hd

theorem Produces.ran {init : Initializer} {r : PageBytes × Bool} {i : ProgramId} {routine : Routine}
    (h : c.Produces bytes init r c₁) (found : c.programs i = some routine)
    (ran : c₁.programs i ≠ some routine) : init = .program i := by
  cases h with
  | @program id _ _ =>
      by_contra other
      refine ran ((Function.update_of_ne ?_ _ _).trans found)
      rintro rfl
      exact other rfl
  | _ => exact (ran found).elim

theorem Step.ran (h : Step c ds c') (hs : c.Sound) {i : ProgramId} {routine : Routine}
    (found : c.programs i = some routine) (ran : c'.programs i ≠ some routine) :
    ∃ r page target, c.pages.find? r = some page ∧ page.kind = .uninit target (some (.program i)) ∧
      ∃ d ∈ ds, d.Settles r := by
  cases h with
  | learn =>
      refine (ran ((Function.update_of_ne ?_ _ _).trans found)).elim
      rintro rfl
      exact nomatch found.symm.trans (hs.programs _ (Nat.le_refl _))
  | @fill _ r page id phys kind bytes _ there away free filled =>
      generalize hold : page.kind = old at filled
      cases filled with
      | zero | slot | file | newAnon | newFile => exact (ran found).elim
      | made made =>
          obtain rfl := made.ran found ran
          exact ⟨r, page, _, there, hold, _, List.mem_cons_self, rfl⟩
  | @fail _ r page id phys target init kept bytes there away kind free made =>
      obtain rfl := made.ran found ran
      exact ⟨r, page, _, there, kind, _, List.mem_cons_self, rfl⟩
  | evict _ _ saved =>
      obtain ⟨swap, files, rfl⟩ := saved.core_eq
      exact (ran found).elim
  | dropAway _ _ disposed =>
      obtain ⟨swap, files, rfl⟩ := disposed.core_eq
      exact (ran found).elim
  | drop _ _ _ disposed =>
      obtain ⟨swap, files, rfl⟩ := disposed.core_eq
      exact (ran ((congrFun (disown_apart _ _ _ _).2.1 i).trans found)).elim
  | copy | lose => exact (ran ((congrFun (disown_apart _ _ _ _).2.1 i).trans found)).elim
  | shareHalf _ _ _ _ _ _ mapped =>
      rcases mapped with rfl | rfl
      · exact (ran found).elim
      · exact (ran found).elim
  | _ => exact (ran found).elim

end Core

theorem Move.keeps_bytes {L L' : Looks} {F F' : Files} {ds : List Deed} {bytes bytes' : PageBytes}
    (move : Move L F ds L' F') (unwritten : ∀ d ∈ ds, ¬ d.IsWrite)
    (held : (L ref).bind Look.content = some bytes)
    (held' : (L' ref).bind Look.content = some bytes') : bytes' = bytes := by
  have same (h : L' ref = L ref) : bytes' = bytes := by
    rw [h] at held'
    exact Option.some.inj (held'.symm.trans held)
  have other {r : PageRef} {new : Option Look} (hL : L' = Function.update L r new)
      (away : (L r).bind Look.content = none ∨ new.bind Look.content = none) : bytes' = bytes := by
    subst hL
    by_cases hr : ref = r
    · subst hr
      rcases away with away | away
      · exact nomatch away.symm.trans held
      · rw [Function.update_self] at held'
        exact nomatch away.symm.trans held'
    · exact same (Function.update_of_ne hr _ _)
  cases move with
  | still | chart | spoil | read => exact same rfl
  | add vacant => exact other rfl (.inl (by rw [vacant]; rfl))
  | share _ vacant => exact other rfl (.inl (by rw [vacant]; rfl))
  | evict | lose => exact other rfl (.inr rfl)
  | fill found => exact other rfl (.inl (by rw [found]; rfl))
  | fail found => exact other rfl (.inl (by rw [found]; rfl))
  | write => exact (unwritten _ List.mem_cons_self trivial).elim
  | drop | dropWriting => exact other rfl (.inr rfl)

/-- A single thing that happens: the core before it, what it means to the users of the pages, and the
core after it. -/
structure Hop where
  before : Core
  deeds : List Deed
  after : Core

namespace Hop

variable {hop : Hop}

/-- The pager takes a step, or others change entries of page tables, files, or what page tables grant, and
leave all in order. -/
inductive Happens : Hop → Prop where
  | step {c c' : Core} {ds : List Deed} (step : Step c ds c') : Happens ⟨c, ds, c'⟩
  | tampered {c : Core} {mappings : Table PageRef Mapping} {files : FileId → FileFace}
      {grants : SpaceId → Nat → Bool} (sound : Sound { c with mappings, files, grants }) :
      Happens ⟨c, [], { c with mappings, files, grants }⟩

def Has (ref : PageRef) (hop : Hop) : Prop :=
  hop.before.pages.find? ref ≠ none ∧ hop.after.pages.find? ref ≠ none

def Turns (ref : PageRef) (hop : Hop) : Prop := hop.before.Unused ref ∧ hop.after.Used ref

namespace Happens

theorem sound (h : hop.Happens) (hs : hop.before.Sound) : hop.after.Sound := by
  cases h with
  | step step => exact step.sound hs
  | tampered sound => exact sound

theorem remains (h : hop.Happens) (found : hop.before.pages.find? ref = some page)
    (there : hop.after.pages.find? ref ≠ none) : ∃ page', hop.after.pages.find? ref = some page' ∧
      page.Remains (∀ d ∈ hop.deeds, ¬ d.Settles ref) page' := by
  cases h with
  | step step => exact step.remains found (step.stays there)
  | tampered => exact ⟨page, found, .moved page _ _ _⟩

theorem stays_used (h : hop.Happens) (hs : hop.before.Sound) (used : hop.before.Used ref)
    (there : hop.after.pages.find? ref ≠ none) :
    hop.after.Used ref ∧ ∀ d ∈ hop.deeds, ¬ d.Settles ref := by
  obtain ⟨page, found, hused⟩ := used
  obtain ⟨page', found', same⟩ := h.remains found there
  refine ⟨⟨page', found', same.used hused⟩, fun d hd settles => ?_⟩
  cases h with
  | step step => exact Used.not_unused ⟨page, found, hused⟩ (step.settles hs hd settles).1
  | tampered => exact nomatch hd

theorem turns_iff (h : hop.Happens) (hs : hop.before.Sound) (has : hop.Has ref) :
    hop.Turns ref ↔ ∃ init bytes, .make ref init bytes ∈ hop.deeds := by
  constructor
  · rintro ⟨⟨page, found, unused⟩, used⟩
    obtain ⟨page', found', same⟩ := h.remains found has.2
    by_contra unmade
    have idle : ∀ d ∈ hop.deeds, ¬ d.Settles ref := by
      intro d hd settles
      cases h with
      | step step =>
          obtain ⟨-, ⟨init, bytes, rfl, -⟩ | ⟨kept, rfl, still⟩⟩ := step.settles hs hd settles
          · exact unmade ⟨init, bytes, hd⟩
          · exact used.not_unused still
      | tampered => exact nomatch hd
    exact used.not_unused ⟨page', found', (same.isUninit idle).trans unused⟩
  · rintro ⟨init, bytes, made⟩
    cases h with
    | step step =>
        obtain ⟨unused, ⟨_, _, -, used, -⟩ | ⟨_, heq, -⟩⟩ := step.settles hs made rfl
        · exact ⟨unused, used⟩
        · exact nomatch heq
    | tampered => exact nomatch made

theorem makes (h : hop.Happens) (hs : hop.before.Sound) {init : Option Initializer} {bytes : PageBytes}
    (made : .make ref init bytes ∈ hop.deeds) :
    hop.after.Lets ref false ∧ hop.after.held? ref = some bytes := by
  cases h with
  | step step =>
      obtain ⟨-, ⟨_, _, heq, -, made⟩ | ⟨_, heq, -⟩⟩ := step.settles hs made rfl
      · cases heq
        exact made
      · exact nomatch heq
  | tampered => exact nomatch made

theorem keeps_bytes (h : hop.Happens) (hs : hop.before.Sound) (unwritten : ∀ d ∈ hop.deeds, ¬ d.IsWrite)
    {bytes bytes' : PageBytes} (held : hop.before.held? ref = some bytes)
    (held' : hop.after.held? ref = some bytes') : bytes' = bytes := by
  cases h with
  | step step =>
      have move := step.move hs fun ⟨d, hd, hw⟩ => (unwritten d hd hw).elim
      exact move.keeps_bytes unwritten held held'
  | @tampered c mappings files grants =>
      have same : Core.held? { c with mappings, files, grants } ref = c.held? ref := by
        unfold held? looks
        cases c.pages.find? ref <;> rfl
      exact Option.some.inj (held'.symm.trans (same.trans held))

end Happens

end Hop

inductive Core.Course : Core → List Hop → Core → Prop where
  | nil {c : Core} : Course c [] c
  | cons {hop : Hop} {hops : List Hop} {c : Core} (happens : hop.Happens)
      (rest : Course hop.after hops c) : Course hop.before (hop :: hops) c

/-- What a page goes through as long as it is there. -/
structure Lifecycle (ref : PageRef) (life : List Hop) : Prop where
  /-- Its page table, its write permission and its type are always the same. -/
  fixed : ∃ writable type, ∀ hop ∈ life, ∀ c ∈ [hop.before, hop.after], ∃ page,
    c.pages.find? ref = some page ∧ page.table = ref.space ∧ page.writable = writable ∧
      page.kind.pageType = type
  /-- Before it is put to use nothing is held for it. -/
  bare : ∀ hop ∈ life, ∀ c ∈ [hop.before, hop.after], ∀ page, c.pages.find? ref = some page →
    page.kind.isUninit = true → c.Bare ref page
  /-- It is put to use when its initializer succeeds, and then it is mapped and has these contents. -/
  turns_iff : ∀ hop ∈ life, hop.Turns ref ↔ ∃ init bytes, .make ref init bytes ∈ hop.deeds
  made : ∀ hop ∈ life, ∀ init bytes, .make ref init bytes ∈ hop.deeds →
    hop.after.Lets ref false ∧ hop.after.held? ref = some bytes
  /-- Once it is in use it stays so and is not initialized any more. -/
  stays_used : ∀ hop ∈ life, hop.before.Used ref →
    hop.after.Used ref ∧ ∀ d ∈ hop.deeds, ¬ d.Settles ref
  settled : life.Pairwise fun hop later => hop.after.Used ref →
    later.before.Used ref ∧ later.after.Used ref ∧ ∀ d ∈ later.deeds, ¬ d.Settles ref
  once : life.Pairwise fun hop later => hop.Turns ref → ¬ later.Turns ref
  /-- No program runs but for pages that were not put to use yet. -/
  ran : ∀ hop ∈ life, ∀ id routine, hop.before.programs id = some routine →
    hop.after.programs id ≠ some routine → ∃ r page target, hop.before.pages.find? r = some page ∧
      page.kind = .uninit target (some (.program id)) ∧ ∃ d ∈ hop.deeds, d.Settles r
  /-- What memory holds of it changes when a user writes, and else never. -/
  kept : ∀ hop ∈ life, (∀ d ∈ hop.deeds, ¬ d.IsWrite) → ∀ bytes bytes',
    hop.before.held? ref = some bytes → hop.after.held? ref = some bytes' → bytes' = bytes

namespace Core

variable {c c' c₁ : Core} {ds : List Deed} {hops xs ys life : List Hop}

namespace Course

theorem append (h : Course c xs c₁) (h' : Course c₁ ys c') : Course c (xs ++ ys) c' := by
  induction h with
  | nil => exact h'
  | cons happens _ ih => exact .cons happens (ih h')

theorem split (h : Course c (xs ++ ys) c') : ∃ c₁, Course c xs c₁ ∧ Course c₁ ys c' := by
  induction xs generalizing c with
  | nil => exact ⟨c, .nil, h⟩
  | cons hop xs ih =>
      cases h with
      | cons happens rest =>
          obtain ⟨c₁, hxs, hys⟩ := ih rest
          exact ⟨c₁, .cons happens hxs, hys⟩

theorem happens (h : Course c hops c') (hs : c.Sound) :
    c'.Sound ∧ ∀ hop ∈ hops, hop.Happens ∧ hop.before.Sound ∧ hop.after.Sound := by
  induction h with
  | nil => exact ⟨hs, nofun⟩
  | cons happens _ ih =>
      have hafter := happens.sound hs
      obtain ⟨hlast, hall⟩ := ih hafter
      exact ⟨hlast, List.forall_mem_cons.2 ⟨⟨happens, hs, hafter⟩, hall⟩⟩

theorem remains (h : Course c life c') (has : ∀ hop ∈ life, hop.Has ref)
    (found : c.pages.find? ref = some page) : ∀ hop ∈ life, ∀ c₁ ∈ [hop.before, hop.after],
      ∃ page', c₁.pages.find? ref = some page' ∧ page.Remains False page' := by
  induction h generalizing page with
  | nil => exact nofun
  | cons happens _ ih =>
      obtain ⟨hfirst, hrest⟩ := List.forall_mem_cons.1 has
      obtain ⟨page₁, found₁, same⟩ := happens.remains found hfirst.2
      have same₁ : page.Remains False page₁ := same.mono False.elim
      refine List.forall_mem_cons.2 ⟨?_, fun hop hhop c₁ hc₁ => ?_⟩
      · exact List.forall_mem_cons.2 ⟨⟨page, found, .moved page _ _ _⟩,
          List.forall_mem_singleton.2 ⟨page₁, found₁, same₁⟩⟩
      · obtain ⟨page₂, found₂, same₂⟩ := ih hrest found₁ hop hhop c₁ hc₁
        exact ⟨page₂, found₂, same₁.trans same₂⟩

theorem stays_used (h : Course c life c') (hs : c.Sound) (has : ∀ hop ∈ life, hop.Has ref)
    (used : c.Used ref) : ∀ hop ∈ life,
      hop.before.Used ref ∧ hop.after.Used ref ∧ ∀ d ∈ hop.deeds, ¬ d.Settles ref := by
  induction h with
  | nil => exact nofun
  | cons happens _ ih =>
      obtain ⟨hfirst, hrest⟩ := List.forall_mem_cons.1 has
      obtain ⟨used', idle⟩ := happens.stays_used hs used hfirst.2
      exact List.forall_mem_cons.2 ⟨⟨used, used', idle⟩, ih (happens.sound hs) hrest used'⟩

theorem settled (h : Course c life c') (hs : c.Sound) (has : ∀ hop ∈ life, hop.Has ref) :
    life.Pairwise fun hop later => hop.after.Used ref →
      later.before.Used ref ∧ later.after.Used ref ∧ ∀ d ∈ later.deeds, ¬ d.Settles ref := by
  induction h with
  | nil => exact .nil
  | cons happens rest ih =>
      obtain ⟨-, hrest⟩ := List.forall_mem_cons.1 has
      have hs' := happens.sound hs
      exact .cons (fun later mem used => rest.stays_used hs' hrest used later mem) (ih hs' hrest)

theorem turns (h : Course c life c') (has : ∀ hop ∈ life, hop.Has ref) (unused : c.Unused ref)
    (used : c'.Used ref) : ∃ hop ∈ life, hop.Turns ref := by
  induction h with
  | nil => exact (used.not_unused unused).elim
  | cons _ _ ih =>
      obtain ⟨hfirst, hrest⟩ := List.forall_mem_cons.1 has
      rcases unused_or_used hfirst.2 with still | now
      · obtain ⟨hop, mem, turns⟩ := ih hrest still used
        exact ⟨hop, List.mem_cons_of_mem _ mem, turns⟩
      · exact ⟨_, List.mem_cons_self, unused, now⟩

theorem lifecycle (h : Course c life c') (hs : c.Sound) (has : ∀ hop ∈ life, hop.Has ref) :
    Lifecycle ref life where
  fixed := by
    cases h with
    | nil => exact ⟨false, .anon, nofun⟩
    | @cons first rest _ happens later =>
        obtain ⟨page, found⟩ := Option.ne_none_iff_exists'.1 (has first List.mem_cons_self).1
        refine ⟨page.writable, page.kind.pageType, fun hop mem c₁ hc₁ => ?_⟩
        obtain ⟨page', found', same⟩ :=
          (Course.cons happens later).remains has found hop mem c₁ hc₁
        exact ⟨page', found', same.table.trans (hs.owned.home ref page found), same.writable,
          same.pageType⟩
  bare hop mem c₁ hc₁ page found unused := by
    obtain ⟨-, hs₁, hs₂⟩ := (h.happens hs).2 hop mem
    simp only [List.mem_cons, List.not_mem_nil, or_false] at hc₁
    rcases hc₁ with rfl | rfl
    · exact hs₁.bare found unused
    · exact hs₂.bare found unused
  turns_iff hop mem := by
    obtain ⟨happens, hs₁, -⟩ := (h.happens hs).2 hop mem
    exact happens.turns_iff hs₁ (has hop mem)
  made hop mem init bytes made := by
    obtain ⟨happens, hs₁, -⟩ := (h.happens hs).2 hop mem
    exact happens.makes hs₁ made
  stays_used hop mem used := by
    obtain ⟨happens, hs₁, -⟩ := (h.happens hs).2 hop mem
    exact happens.stays_used hs₁ used (has hop mem).2
  settled := h.settled hs has
  once := (h.settled hs has).imp fun settled turns turns' =>
    (settled turns.2).1.not_unused turns'.1
  ran hop mem id routine found ran := by
    obtain ⟨happens, hs₁, -⟩ := (h.happens hs).2 hop mem
    cases happens with
    | step step => exact step.ran hs₁ found ran
    | tampered => exact (ran found).elim
  kept hop mem unwritten bytes bytes' held held' := by
    obtain ⟨happens, hs₁, -⟩ := (h.happens hs).2 hop mem
    exact happens.keeps_bytes hs₁ unwritten held held'

end Course

theorem Steps.course (h : Steps c ds c') : ∃ hops, Course c hops c' ∧
    ∀ ref, c.pages.find? ref ≠ none → .drop ref ∉ ds → ∀ hop ∈ hops, hop.Has ref := by
  induction h with
  | refl => exact ⟨[], .nil, fun _ _ _ => nofun⟩
  | @tail c₁ c₂ ds es run step ih =>
      obtain ⟨hops, course, has⟩ := ih
      refine ⟨hops ++ [⟨c₁, es, c₂⟩], course.append (@Course.cons ⟨c₁, es, c₂⟩ _ _ (.step step) .nil),
        fun ref there stays => ?_⟩
      have stays₁ : .drop ref ∉ ds := fun hd => stays (List.mem_append_left _ hd)
      obtain ⟨page, found⟩ := Option.ne_none_iff_exists'.1 there
      obtain ⟨page₁, found₁, -⟩ := run.remains found stays₁
      obtain ⟨page₂, found₂, -⟩ := step.remains found₁ fun hd => stays (List.mem_append_right _ hd)
      refine List.forall_mem_append.2 ⟨has ref there stays₁, List.forall_mem_singleton.2 ⟨?_, ?_⟩⟩
      · exact Option.ne_none_iff_exists'.2 ⟨page₁, found₁⟩
      · exact Option.ne_none_iff_exists'.2 ⟨page₂, found₂⟩

end Core

namespace Operation

theorem Comes.course {c c' : Core} (h : op.Comes c c' a) (sound : c'.Sound) :
    ∃ hops, Course c hops c' := by
  cases h with
  | absent _ run =>
      obtain ⟨hops, course, -⟩ := run.course
      exact ⟨hops, course⟩
  | ran first run =>
      obtain ⟨hops, course, -⟩ := (first.trans run).course
      exact ⟨hops, course⟩
  | @tampered c₁ mappings files grants _ first core =>
      obtain ⟨hops, course, -⟩ := first.course
      subst core
      exact ⟨_, course.append (@Course.cons ⟨c₁, [], _⟩ _ _ (.tampered sound) .nil)⟩

end Operation

/-- What happened in a machine while it served requests, whoever held which locks. -/
inductive Machine.Story (m : Machine) : List Exchange → List Hop → Machine → Prop where
  | start : Story m [] [] m
  | served {m₁ m' : Machine} {log : List Exchange} {hops new : List Hop} {op : Operation} {a : Answer}
      (held : List PageRef) (before : Story m log hops m₁)
      (answered : op.perform { m₁ with held } = .ok a m') (course : Course m₁.core new m'.core) :
      Story m (log ++ [(op, a)]) (hops ++ new) m'

namespace Machine

variable {n : Nat} {loan : HandleCount} {hops : List Hop}

theorem Story.course (h : m.Story log hops m') : Course m.core hops m'.core := by
  induction h with
  | start => exact .nil
  | served _ _ _ course ih => exact ih.append course

theorem Serves.story (run : m.Serves log m') (tidy : m.Tidy n loan) : ∃ hops, m.Story log hops m' := by
  induction run with
  | nil => exact ⟨[], .start⟩
  | @next m₁ m' log op a held run answered ih =>
      obtain ⟨hops, story⟩ := ih
      have tidy₁ : Tidy n loan { m₁ with held } := (run.reaches.tidy tidy).same rfl rfl
      have comes := Operation.perform_comes tidy₁.sound answered
      obtain ⟨new, course⟩ := comes.course ((op.perform_upholds tidy₁).ok answered).sound
      exact ⟨_, story.served held answered course⟩

end Machine

/-- A frame is to be had for the page, its page table takes the entry, and the page is filled. -/
def PageRef.Succeeds (ref : PageRef) (page : Page) (m : Machine) : Prop :=
  ∃ id m₁ phys m₂ m₃ m₄ kind m₅, allocateFrame m = .ok id m₁ ∧ physPage id m₁ = .ok phys m₁ ∧
    link id ref m₁ = .ok ⟨⟩ m₂ ∧ install (page.entryRef ref) phys page.writable m₂ = .ok true m₃ ∧
      emit (.swapIn ref.va phys) m₃ = .ok ⟨⟩ m₄ ∧ page.kind.fill phys m₄ = .ok (kind, true) m₅

theorem claimVacant_true_iff (h : claimVacant ref page m = .ok done m') :
    done = true ↔ ref.Succeeds page m := by
  obtain ⟨-, id, m₁, phys, m₂, kind, m₃, taken, phys_of, linked, mapped, -, -⟩ := claimVacant_parts h
  constructor
  · rintro rfl
    rcases mapAndFill_parts mapped with ⟨m₄, m₅, granted, emitted, filled⟩ | ⟨failed, -⟩
    · exact ⟨id, m₁, phys, m₂, m₄, m₅, kind, m₃, taken, phys_of, linked, granted, emitted, filled⟩
    · exact nomatch congrArg Prod.snd failed
  · rintro ⟨_, _, _, _, m₄, m₅, kind', m₆, taken', phys_of', linked', granted, emitted, filled⟩
    cases taken.symm.trans taken'
    cases phys_of.symm.trans phys_of'
    cases linked.symm.trans linked'
    have all : mapAndFill ref page phys m₂ = .ok (kind', true) m₆ :=
      bind_ok.2 ⟨true, m₄, granted, bind_ok.2 ⟨⟨⟩, m₅, emitted, filled⟩⟩
    cases mapped.symm.trans all
    rfl

theorem Core.Claims.used_iff {c c' : Core} {id : FrameId} {kind : PageKind} {ds : List Deed}
    (h : c.Claims ref page id (kind, done) ds c') (unused : page.kind.isUninit = true) :
    c'.Used ref ↔ done = true := by
  have outcome : kind.isUninit = !done := by
    cases h with
    | filled _ fills => exact fills.used.1
    | refused => exact unused
    | failed => rfl
  obtain ⟨p, rfl, pages⟩ := h.pages
  have found : c'.pages.find? ref = some p := by
    rw [pages]
    exact Table.find?_insert_self
  cases done with
  | true => exact ⟨fun _ => rfl, fun _ => ⟨p, found, outcome⟩⟩
  | false => exact ⟨fun used => (used.not_unused ⟨p, found, outcome⟩).elim, nofun⟩

theorem claimVacant_used_iff (hs : m.core.Sound) (unused : page.kind.isUninit = true)
    (h : claimVacant ref page m = .ok done m') : m'.core.Used ref ↔ done = true := by
  obtain ⟨_, _, _, _, _, _, claims, _⟩ := claimVacant_claimed hs h
  exact claims.used_iff unused

/-- As long as a page is there, its page table, write permission and type stay the same. It is put to
use once, by the first claim that maps it and whose initializer succeeds, nothing is held for it before,
and it is not initialized afterwards. -/
theorem page_initialized_once
    (served : (Machine.fresh frames sectors files allocator).Serves log m') :
    (∃ hops, (Machine.fresh frames sectors files allocator).Story log hops m') ∧
      (∀ hops, (Machine.fresh frames sectors files allocator).Story log hops m' →
        ∀ earlier life later ref, hops = earlier ++ life ++ later → (∀ hop ∈ life, hop.Has ref) →
          Lifecycle ref life) ∧
      ∀ n ref page done n', (Machine.fresh frames sectors files allocator).Passes n →
        n.pages.find? ref = some page → claimVacant ref page n = .ok done n' →
          (page.kind.isUninit = true →
            (n'.core.Used ref ↔ done = true) ∧ (done = true ↔ ref.Succeeds page n)) ∧
          (page.kind.isUninit = false → n'.core.Used ref ∧ n'.programs = n.programs) := by
  have tidy := Machine.fresh_tidy frames sectors files allocator
  refine ⟨served.story tidy, ?_, fun n ref page done n' passes found claimed => ⟨fun unused => ?_,
    fun used => ⟨?_, ?_⟩⟩⟩
  · rintro hops story earlier life later ref rfl has
    obtain ⟨c₂, course, -⟩ := story.course.split
    obtain ⟨c₁, before, course⟩ := course.split
    exact course.lifecycle (before.happens tidy.sound).1 has
  · exact ⟨claimVacant_used_iff passes.sound unused claimed, claimVacant_true_iff claimed⟩
  · obtain ⟨ds, steps, settles, -⟩ := claimVacant_core passes.sound found claimed
    obtain ⟨page', found', same⟩ := steps.remains found fun hd => settles _ hd
    exact ⟨page', found', same.used used⟩
  · exact claimVacant_keeps used claimed

/-- The initializer of a page fails at the first claim and succeeds at the second one; that is when the
page is put to use. -/
theorem page_initialized_once_after_failure :
    let declared := Operation.declare 0 (.ofBits 4096) true .anon
      (some (.program (.filling 7 100 1 (.always true))))
    ∃ hops m' earlier life hop n page n', (Machine.fresh 2 none []).Story
        [(declared, .flag true), (.claim 0 (.ofBits 4096), .flag false),
          (.claim 0 (.ofBits 4096), .flag true)] hops m' ∧
      hops = earlier ++ life ++ [] ∧ (∀ hop ∈ life, hop.Has ⟨0, ⟨1⟩⟩) ∧ Lifecycle ⟨0, ⟨1⟩⟩ life ∧
      hop ∈ life ∧ hop.Turns ⟨0, ⟨1⟩⟩ ∧ (Machine.fresh 2 none []).Passes n ∧
      n.pages.find? ⟨0, ⟨1⟩⟩ = some page ∧ claimVacant ⟨0, ⟨1⟩⟩ page n = .ok false n' ∧
      ¬ PageRef.Succeeds ⟨0, ⟨1⟩⟩ page n := by
  intro declared
  have played : ((Machine.fresh 2 none []).ask [] declared).any (fun r => r.1.flag? == some true &&
      (((r.2.pages.find? ⟨0, ⟨1⟩⟩).any fun page => page.kind.isUninit &&
        (r.2.outcome (claimVacant ⟨0, ⟨1⟩⟩ page)).any fun x => !x.1) &&
      (r.2.ask [] (.claim 0 (.ofBits 4096))).any fun r₁ => r₁.1.flag? == some false &&
        (r₁.2.ask [] (.claim 0 (.ofBits 4096))).any fun r₂ => r₂.1.flag? == some true &&
          (r₂.2.pages.find? ⟨0, ⟨1⟩⟩).any fun page => !page.kind.isUninit)) = true := by
    decide +kernel
  obtain ⟨⟨a, m₁⟩, asked, hcheck⟩ := (Option.any_eq_true _ _).1 played
  simp only [Bool.and_eq_true, beq_iff_eq] at hcheck
  obtain ⟨hflag, hpage, hcheck⟩ := hcheck
  obtain rfl := Answer.flag?_eq_some.1 hflag
  obtain ⟨page, found, hpage⟩ := (Option.any_eq_true _ _).1 hpage
  obtain ⟨unused, hpage⟩ := Bool.and_eq_true_iff.1 hpage
  obtain ⟨⟨done, n'⟩, hclaimed, hdone⟩ := (Option.any_eq_true _ _).1 hpage
  obtain rfl : done = false := Bool.not_eq_eq_eq_not.1 hdone
  have failed := Machine.outcome_eq_some.1 hclaimed
  obtain ⟨⟨a, m₂⟩, asked₁, hcheck⟩ := (Option.any_eq_true _ _).1 hcheck
  obtain ⟨hflag, hcheck⟩ := Bool.and_eq_true_iff.1 hcheck
  obtain rfl := Answer.flag?_eq_some.1 (beq_iff_eq.1 hflag)
  obtain ⟨⟨a, m₃⟩, asked₂, hcheck⟩ := (Option.any_eq_true _ _).1 hcheck
  obtain ⟨hflag, hcheck⟩ := Bool.and_eq_true_iff.1 hcheck
  obtain rfl := Answer.flag?_eq_some.1 (beq_iff_eq.1 hflag)
  obtain ⟨page', found', used⟩ := (Option.any_eq_true _ _).1 hcheck
  have tidy := Machine.fresh_tidy 2 none []
  have answered := Machine.ask_eq_some.1 asked
  have answered₁ := Machine.ask_eq_some.1 asked₁
  have answered₂ := Machine.ask_eq_some.1 asked₂
  have first : (Machine.fresh 2 none []).Serves ([] ++ [_]) m₁ := .next [] .nil answered
  have second := first.next [] answered₁
  have served := second.next [] answered₂
  obtain ⟨earlier, story⟩ := first.story tidy
  -- a claim takes no page away
  have claims {m m' : Machine} {a : Answer} (hs : m.core.Sound)
      (answered : (Operation.claim 0 (.ofBits 4096)).perform { m with held := [] } = .ok a m')
      {ref : PageRef} (there : m.core.pages.find? ref ≠ none) :
      (∃ hops, Course m.core hops m'.core ∧ ∀ hop ∈ hops, hop.Has ref) ∧
        m'.core.pages.find? ref ≠ none := by
    have regular : (Operation.claim 0 (.ofBits 4096)).Regular := trivial
    obtain ⟨ds, steps, does⟩ := Operation.perform_held regular hs answered
    have stays : .drop ref ∉ ds := fun hd => by
      cases does with
      | looked looks => exact looks
      | claimed settles => exact settles _ hd
    obtain ⟨hops, course, has⟩ := steps.course
    obtain ⟨page, found⟩ := Option.ne_none_iff_exists'.1 there
    obtain ⟨page', found', -⟩ := steps.remains found stays
    exact ⟨⟨hops, course, has ref there stays⟩, Option.ne_none_iff_exists'.2 ⟨page', found'⟩⟩
  have hs := (first.reaches.tidy tidy).sound
  have hs₂ := (second.reaches.tidy tidy).sound
  have unused₁ : m₁.core.Unused ⟨0, ⟨1⟩⟩ := ⟨page, found, unused⟩
  have used₃ : m₃.core.Used ⟨0, ⟨1⟩⟩ := ⟨page', found', Bool.not_eq_eq_eq_not.1 used⟩
  have there : m₁.core.pages.find? ⟨0, ⟨1⟩⟩ ≠ none := Option.ne_none_iff_exists'.2 ⟨page, found⟩
  obtain ⟨⟨failing, course, has⟩, there₂⟩ := claims hs answered₁ there
  obtain ⟨⟨succeeding, course', has'⟩, -⟩ := claims hs₂ answered₂ there₂
  have lived : ∀ hop ∈ failing ++ succeeding, hop.Has ⟨0, ⟨1⟩⟩ := List.forall_mem_append.2 ⟨has, has'⟩
  obtain ⟨hop, mem, turns⟩ := (course.append course').turns lived unused₁ used₃
  have story₃ := (story.served [] answered₁ course).served [] answered₂ course'
  have passes : (Machine.fresh 2 none []).Passes m₁ := first.reaches.passes m₁.held
  obtain ⟨-, lives, claimed⟩ := page_initialized_once served
  have verdict := (claimed m₁ _ page false n' passes found failed).1 unused
  refine ⟨_, m₃, earlier, failing ++ succeeding, hop, m₁, page, n', story₃, ?_, lived, ?_, mem, turns,
    passes, found, failed, fun succeeds => Bool.false_ne_true (verdict.2.2 succeeds)⟩
  · simp only [List.append_assoc, List.append_nil]
  · exact lives _ story₃ earlier _ [] _ (by simp only [List.append_assoc, List.append_nil]) lived

end DemandPaging
