import DemandPaging.Proofs.Surroundings
import DemandPaging.Proofs.Accesses

/-!
Histories of deeds, read as the history of a memory in which every space owns its pages. A page is
declared, made with its first contents, read and written, copied as a whole, and dropped; nothing
else ever happens to it.
-/

namespace DemandPaging

open DemandPaging.Core

/-- The bytes with which a page without contents may begin. -/
inductive Core.Yields (c : Core) : Option Initializer → PageBytes → Prop where
  | zero : Yields c none PageBytes.zero
  | segment {backing : FileBacking} {got : Array UInt8}
      (got_of : (c.files backing.file).Delivers backing.offset backing.readBytes got) :
      Yields c (some (.segment backing)) (PageBytes.ofArray got)
  | program {id : ProgramId} {routine : Routine} {bytes : PageBytes}
      (found : c.programs id = some routine)
      (succeeds : routine.run routine.calls PageBytes.zero = (bytes, true)) :
      Yields c (some (.program id)) bytes

theorem Core.Produces.yields {c c' : Core} {init : Initializer} {bytes : PageBytes}
    (h : c.Produces PageBytes.zero init (bytes, true) c') : c.Yields (some init) bytes := by
  generalize hr : (bytes, true) = r at h
  cases h with
  | segment got_of =>
      cases hr
      exact .segment got_of
  | program found => exact .program found hr.symm
  | missing => exact nomatch (Prod.mk.injEq _ _ _ _).mp hr
  | alwaysFail => exact nomatch (Prod.mk.injEq _ _ _ _).mp hr

def Flat.Holds (F : Flat) (ref : PageRef) (P : PageBytes → Prop) : Prop :=
  F ref = some .file ∨ ∃ page, F ref = some (.live page) ∧ P page

/-- What a deed presupposes and shows. Initializers run at moments of which `E` tells. -/
def Deed.Lawful (E : Core → Prop) (F : Flat) : Deed → Prop
  | add ref _ => F ref = none
  | make ref init bytes =>
      F ref = some .file ∨ (F ref = some (.pending init) ∧ ∃ c, E c ∧ c.Yields init bytes)
  | fail ref kept =>
      F ref = some .file ∨ ∃ init, F ref = some (.pending (some init)) ∧ init.Kept kept
  | read ref offset bytes => offset + bytes.size ≤ pageSize ∧
      F.Holds ref fun page => bytes = PageBytes.slice page offset bytes.size
  | write ref offset bytes => offset + bytes.size ≤ pageSize ∧ F.Holds ref fun _ => True
  | share src dst whole => whole = true ∧ F dst = none ∧ F.Holds src fun _ => True
  | lose _ => False
  | drop ref => F ref ≠ none
  | chart _ => True

theorem Deed.Lawful.mono {E E' : Core → Prop} {F : Flat} {d : Deed} (h : d.Lawful E F)
    (hE : ∀ c, E c → E' c) : d.Lawful E' F := by
  cases d with
  | make => exact h.imp_right fun ⟨hp, c, hc, hy⟩ => ⟨hp, c, hE c hc, hy⟩
  | _ => exact h

namespace Flat

def Lawful (E : Core → Prop) (F : Flat) : List Deed → Prop
  | [] => True
  | d :: ds => d.Lawful E F ∧ Lawful E (d.apply F) ds

variable {E E' : Core → Prop} {F : Flat} {ds es : List Deed}

theorem lawful_append :
    F.Lawful E (ds ++ es) ↔ F.Lawful E ds ∧ (Deed.applyAll F ds).Lawful E es := by
  induction ds generalizing F with
  | nil => exact ⟨fun h => ⟨trivial, h⟩, And.right⟩
  | cons d ds ih =>
      simp only [List.cons_append, Lawful, ih, and_assoc]
      rfl

theorem Lawful.mono (h : F.Lawful E ds) (hE : ∀ c, E c → E' c) : F.Lawful E' ds := by
  induction ds generalizing F with
  | nil => trivial
  | cons d ds ih => exact ⟨h.1.mono hE, ih h.2⟩

end Flat

namespace Core

variable {c c' : Core} {ds : List Deed} {ref : PageRef}

def Between (c c' : Core) (x : Core) : Prop := ∃ ds es, Steps c ds x ∧ Steps x es c'

theorem cell_used {page : Page} (hu : page.kind.isUninit = false) :
    c.cell page = .file ∨ c.cell page = .live (c.bytes page) := by
  unfold cell
  cases hk : page.kind with
  | uninit => rw [hk] at hu; exact nomatch hu
  | anon => exact .inr rfl
  | file => exact .inl rfl

theorem holds_used {page : Page} {P : PageBytes → Prop} (found : c.pages.find? ref = some page)
    (hu : page.kind.isUninit = false) (hP : P (c.bytes page)) : c.flat.Holds ref P := by
  unfold Flat.Holds
  rw [flat_found found]
  rcases @cell_used c page hu with h | h
  · exact .inl (congrArg some h)
  · exact .inr ⟨_, congrArg some h, hP⟩

theorem Step.lawful (h : Step c ds c') (hs : c.Sound) (hc : c.Calm) :
    c.flat.Lawful (· = c) ds := by
  cases h with
  | add vacant => exact ⟨flat_vacant vacant, trivial⟩
  | @fill _ _ page _ phys _ bytes _ found away free filled =>
      have hflat := flat_found found
      rw [hs.pooled.clear _ _ free] at filled
      unfold cell at hflat
      generalize page.kind = old at filled hflat
      cases filled with
      | zero => trivial
      | slot => trivial
      | file => trivial
      | newAnon => exact ⟨.inr ⟨hflat, c, rfl, .zero⟩, trivial⟩
      | newFile => exact ⟨.inl hflat, trivial⟩
      | @made target _ _ _ made =>
          cases target with
          | anon => exact ⟨.inr ⟨hflat, c, rfl, made.yields⟩, trivial⟩
          | file => exact ⟨.inl hflat, trivial⟩
  | @fail _ ref page _ _ target init kept _ found away kind free made kept_of =>
      have hflat := flat_found found
      unfold cell at hflat
      rw [kind] at hflat
      cases target with
      | anon => exact ⟨.inr ⟨init, hflat, kept_of⟩, trivial⟩
      | file => exact ⟨.inl hflat, trivial⟩
  | lose _ _ _ _ _ refused =>
      rw [hc] at refused
      cases refused
  | share found used vacant =>
      exact ⟨⟨rfl, flat_vacant vacant, holds_used found used trivial⟩, trivial⟩
  | shareHalf _ _ _ _ _ refused =>
      rw [hc] at refused
      cases refused
  | @read ref mapping offset count mapped fits =>
      obtain ⟨page, id, frame, found, resident, owned, hphys, -⟩ := hs.mapped ref mapping mapped
      refine ⟨⟨?_, holds_used found (hs.used found resident) ?_⟩, trivial⟩
      · rwa [PageBytes.slice, Array.size_ofFn]
      · rw [bytes_resident resident owned, hphys, PageBytes.slice, PageBytes.slice, Array.size_ofFn]
  | @write ref mapping _ _ mapped _ fits =>
      obtain ⟨page, id, frame, found, resident, owned, -⟩ := hs.mapped ref mapping mapped
      exact ⟨⟨fits, holds_used found (hs.used found resident) trivial⟩, trivial⟩
  | dropAway found =>
      refine ⟨fun hn => ?_, trivial⟩
      rw [flat_found found] at hn
      cases hn
  | drop found =>
      refine ⟨fun hn => ?_, trivial⟩
      rw [flat_found found] at hn
      cases hn
  | chart => exact ⟨trivial, trivial⟩
  | _ => trivial

/-- Calm runs keep to the history of their deeds. -/
theorem Steps.lawful (h : Steps c ds c') (hs : c.Sound) (hg : c.Guarded fun _ => False)
    (hc : c.Calm) :
    c.flat.Lawful (Between c c') ds ∧ c'.flat = Deed.applyAll c.flat ds ∧
      c'.Guarded fun _ => False := by
  induction h with
  | refl => exact ⟨trivial, rfl, hg⟩
  | @tail _ _ ds es run step ih =>
      obtain ⟨hlawful, hflat, hg'⟩ := ih
      refine ⟨Flat.lawful_append.2 ⟨?_, ?_⟩, ?_, ?_⟩
      · refine hlawful.mono fun x ⟨ds', es', hx, hx'⟩ => ?_
        exact ⟨ds', _, hx, hx'.tail step⟩
      · rw [← hflat]
        refine (step.lawful (run.sound hs) (run.calm hc)).mono fun x hx => ?_
        exact hx ▸ ⟨ds, es, run, step.steps⟩
      · rw [Deed.applyAll_append, ← hflat]
        exact step.flat (run.sound hs) fun _ => hg'
      · exact (run.tail step).guarded_of_calm hs hc hg

end Core

def Cell.byteAt? (i : Nat) : Cell → Option UInt8
  | live page => some (page.byteAt i)
  | _ => none

/-- The value that a byte of an anonymous page was last given, looking back from the latest deed: by
a write to the page itself, by its first contents or, for a copy, in the page that was copied. -/
def Deed.lastValue : List Deed → PageRef → Nat → Option UInt8
  | [], _, _ => none
  | add r page :: past, ref, i =>
      if r = ref then page.kind.freshCell.byteAt? i else lastValue past ref i
  | make r _ bytes :: past, ref, i => if r = ref then some (bytes.byteAt i) else lastValue past ref i
  | write r offset bytes :: past, ref, i =>
      if r = ref ∧ offset ≤ i ∧ i < offset + bytes.size then bytes[i - offset]?
      else lastValue past ref i
  | share src dst _ :: past, ref, i => lastValue past (if dst = ref then src else ref) i
  | drop r :: past, ref, i => if r = ref then none else lastValue past ref i
  | _ :: past, ref, i => lastValue past ref i

theorem Deed.lastValue_apart {d : Deed} {past : List Deed} {ref : PageRef} {i : Nat}
    (apart : d.target ≠ some ref) : Deed.lastValue (d :: past) ref i = Deed.lastValue past ref i := by
  cases d with
  | add | make | drop => exact if_neg fun hr => apart (congrArg some hr)
  | write => exact if_neg fun hall => apart (congrArg some hall.1)
  | share => rw [Deed.lastValue, if_neg fun hr => apart (congrArg some hr)]
  | _ => rfl

theorem Deed.lastValue_write {past : List Deed} {ref : PageRef} {page : PageBytes} {offset i : Nat}
    {bytes : Array UInt8} (hi : i < pageSize)
    (before : Deed.lastValue past ref i = some (page.byteAt i)) :
    Deed.lastValue (.write ref offset bytes :: past) ref i =
      some ((page.patch offset bytes).byteAt i) := by
  rw [Deed.lastValue, PageBytes.some_byteAt_patch hi, before]
  simp only [true_and]

namespace Flat

variable {E : Core → Prop} {F : Flat} {ref : PageRef}

theorem live_apply {d : Deed} {past : List Deed} {page : PageBytes} {i : Nat}
    (hd : d.Lawful E F) (hi : i < pageSize)
    (ih : ∀ ref page, F ref = some (.live page) → Deed.lastValue past ref i = some (page.byteAt i))
    (h : d.apply F ref = some (.live page)) :
    Deed.lastValue (d :: past) ref i = some (page.byteAt i) := by
  by_cases ht : d.target = some ref
  · -- The deed is about this page, and the law of the deed says what the page showed before it.
    cases d with
    | read | chart => exact nomatch ht
    | lose => exact hd.elim
    | add r p =>
        cases ht
        have hcell : some p.kind.freshCell = some (.live page) :=
          (Function.update_self ref _ F).symm.trans h
        rw [Deed.lastValue, if_pos rfl, Option.some.inj hcell]
        rfl
    | make r init bytes =>
        cases ht
        replace h := (Function.update_self _ _ _).symm.trans h
        rw [Deed.lastValue, if_pos rfl]
        rcases hd with hd | ⟨hd, -⟩
        · rw [hd] at h
          exact nomatch h
        · rw [hd] at h
          cases h
          rfl
    | fail r kept =>
        cases ht
        replace h := (Function.update_self _ _ _).symm.trans h
        rcases hd with hd | ⟨init, hd, -⟩
        · rw [hd] at h
          exact nomatch h
        · rw [hd] at h
          exact nomatch h
    | write r offset bytes =>
        cases ht
        replace h := (Function.update_self _ _ _).symm.trans h
        rcases hd.2 with hd | ⟨old, hd, -⟩
        · rw [hd] at h
          exact nomatch h
        · rw [hd] at h
          cases h
          exact Deed.lastValue_write hi (ih ref old hd)
    | share src dst whole =>
        cases ht
        rw [Deed.lastValue, if_pos rfl]
        exact ih src page ((Function.update_self ref _ F).symm.trans h)
    | drop r =>
        cases ht
        exact nomatch (Function.update_self _ _ _).symm.trans h
  · rw [Deed.lastValue_apart ht]
    exact ih ref page ((Deed.apply_apart ht).symm.trans h)

theorem lastValue_live {past : List Deed} {i : Nat} (hi : i < pageSize)
    (hl : Lawful E (fun _ => none) past.reverse) {page : PageBytes}
    (h : Deed.applyAll (fun _ => none) past.reverse ref = some (.live page)) :
    Deed.lastValue past ref i = some (page.byteAt i) := by
  induction past generalizing ref page with
  | nil => exact nomatch h
  | cons d past ih =>
      rw [List.reverse_cons] at hl h
      obtain ⟨hpast, hd, -⟩ := lawful_append.1 hl
      rw [Deed.applyAll_append] at h
      exact live_apply hd hi (fun r p hr => ih hpast hr) h

end Flat

/-- In a lawful history every byte that is shown of an anonymous page is the last value it was
given. -/
theorem Flat.loads_lastValue {E : Core → Prop} {before after : List Deed} {d : Deed}
    (hl : Lawful E (fun _ => none) (before ++ d :: after)) {x : ByteAt} (hx : x ∈ d.loads) :
    Deed.applyAll (fun _ => none) before x.ref = some .file ∨
      Deed.lastValue before.reverse x.ref x.offset = some x.byte := by
  obtain ⟨hbefore, hd, -⟩ := lawful_append.1 hl
  cases d with
  | read ref offset bytes =>
      obtain ⟨href, k, hk, hbyte⟩ := ByteAt.mem_row hx
      obtain ⟨fits, hfile | ⟨page, hpage, hbytes⟩⟩ := hd
      · exact .inl (href ▸ hfile)
      · refine .inr ?_
        rw [Array.getElem?_toList] at hbyte
        obtain ⟨hlt, -⟩ := Array.getElem?_eq_some_iff.1 hbyte
        rw [hbytes, PageBytes.getElem?_slice hlt] at hbyte
        rw [← List.reverse_reverse before] at hbefore hpage
        rw [href, hk, lastValue_live (by omega) hbefore hpage, hbyte]
  | _ => exact nomatch hx

end DemandPaging
