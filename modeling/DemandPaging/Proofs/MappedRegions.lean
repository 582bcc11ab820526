import DemandPaging.Proofs.PageTypes

/-!
The regions that are recorded, and the pages that mapping a file made. As long as no page of a recorded
region is removed by itself, the two go together: each page of a mapping is in the region of that
mapping or of a copy of it, and the regions are full of such pages.
-/

namespace DemandPaging

open DemandPaging.Core

variable {m m' m₁ : Machine} {op : Operation} {a : Answer} {ref : PageRef} {o : Origins}
  {log new : List Exchange} {i n : Nat} {start : PageNum} {count : Nat} {t : PageType}

/-- The number in a log of the request to map a file that a page comes from, be it as a copy, and of the
one that recorded a region; and the spaces in which there may be pages left of a copy that failed. -/
structure Origins where
  pages : PageRef → Option Nat
  regions : PageRef → Option Nat
  remnants : SpaceId → Prop

namespace Origins

def unknown : Origins := ⟨fun _ => none, fun _ => none, fun _ => False⟩

def ofPage (o : Origins) (i : Nat) (ref : PageRef) : Operation → Answer → Option Nat
  | .map _ _ _ _ _ _, .mapped (.ok _) => some i
  | .fork src dst _, .flag _ => if ref.space = dst then o.pages ⟨src, ref.vpn⟩ else none
  | _, _ => none

def ofRegion (o : Origins) (i : Nat) (m : Machine) (ref : PageRef) : Operation → Answer → Option Nat
  | .map s va _ _ _ _, .mapped (.ok _) => if ref = ⟨s, va.vpnFloor⟩ then some i else o.regions ref
  | .fork src dst _, .flag true =>
      if ref.space = dst ∧ m.regions.find? ⟨src, ref.vpn⟩ ≠ none then o.regions ⟨src, ref.vpn⟩
      else o.regions ref
  | _, _ => o.regions ref

/-- Whether pages of a failed copy may be left in a space after a request. -/
def Leaves (o : Origins) (s : SpaceId) : Operation → Answer → Prop
  | .fork _ dst _, .flag false => s = dst ∨ o.remnants s
  | .fork src dst _, .flag true => (s = dst ∧ o.remnants src) ∨ o.remnants s
  | .teardown s' _, .size _ | .exit s' _, .flag _ => s' ≠ s ∧ o.remnants s
  | _, _ => o.remnants s

def after (o : Origins) (i : Nat) (m m' : Machine) (op : Operation) (a : Answer) : Origins where
  pages ref :=
    match m'.pages.find? ref, m.pages.find? ref with
    | none, _ => none
    | some _, some _ => o.pages ref
    | some _, none => o.ofPage i ref op a
  regions ref :=
    match m'.regions.find? ref with
    | none => none
    | some _ => o.ofRegion i m ref op a
  remnants s := o.Leaves s op a

variable {op : Operation} {a : Answer} {s s' : SpaceId}

theorem ofPage_barren (barren : ¬ op.Yields a) : o.ofPage i ref op a = none := by
  fun_cases ofPage o i ref op a <;> first | rfl | exact (barren trivial).elim

theorem ofRegion_barren (barren : ¬ op.Yields a) : o.ofRegion i m ref op a = o.regions ref := by
  fun_cases ofRegion o i m ref op a <;> first | rfl | exact (barren trivial).elim

theorem leaves_plain (plain : op.Plain a) (h : o.remnants s) : o.Leaves s op a := by
  fun_cases Leaves o s op a <;>
    first | exact h | exact (plain.1 trivial).elim | exact (plain.2 _ rfl).elim

theorem leaves_emptied (empties : op.Empties s' a) (apart : s' ≠ s) (h : o.remnants s) :
    o.Leaves s op a := by
  fun_cases Leaves o s op a <;> first | exact empties.elim | exact ⟨empties ▸ apart, h⟩ | exact h

theorem leaves_whole (whole : op.wrecks a = false) (intact : ∀ s, ¬ o.remnants s) :
    ¬ o.Leaves s op a := by
  fun_cases Leaves o s op a with
  | case1 => exact nomatch whole
  | case2 src => exact fun left => left.elim (fun left => intact src left.2) (intact s)
  | case3 | case4 => exact fun left => intact s left.2
  | case5 => exact intact s

theorem after_gone (gone : m'.core.types ref = none) : (o.after i m m' op a).pages ref = none := by
  have absent : m'.pages.find? ref = none := types_eq_none.1 gone
  simp only [after, absent]

theorem after_kept {t' : PageType} (old : m.core.types ref = some t)
    (found : m'.core.types ref = some t') : (o.after i m m' op a).pages ref = o.pages ref := by
  obtain ⟨page, hold, -⟩ := types_eq_some.1 old
  obtain ⟨page', hfound, -⟩ := types_eq_some.1 found
  have hold' : m.pages.find? ref = some page := hold
  have hfound' : m'.pages.find? ref = some page' := hfound
  simp only [after, hold', hfound']

theorem after_new (vacant : m.core.types ref = none) (found : m'.core.types ref = some t) :
    (o.after i m m' op a).pages ref = o.ofPage i ref op a := by
  obtain ⟨page', hfound, -⟩ := types_eq_some.1 found
  have hold : m.pages.find? ref = none := types_eq_none.1 vacant
  have hfound' : m'.pages.find? ref = some page' := hfound
  simp only [after, hold, hfound']

theorem after_pages {j : Nat} (h : (o.after i m m' op a).pages ref = some j) :
    ∃ t, m'.core.types ref = some t ∧ (m.core.types ref ≠ none ∧ o.pages ref = some j ∨
      m.core.types ref = none ∧ o.ofPage i ref op a = some j) := by
  cases found : m'.core.types ref with
  | none =>
      rw [after_gone found] at h
      exact nomatch h
  | some t =>
      refine ⟨t, rfl, ?_⟩
      cases old : m.core.types ref with
      | none =>
          rw [after_new old found] at h
          exact .inr ⟨rfl, h⟩
      | some t' =>
          rw [after_kept old found] at h
          exact .inl ⟨Option.some_ne_none t', h⟩

theorem after_region (found : m'.regions.find? ref = some n) :
    (o.after i m m' op a).regions ref = o.ofRegion i m ref op a := by
  simp only [after, found]

end Origins

def Machine.Covers (m : Machine) (start : PageNum) (count : Nat) (ref : PageRef) : Prop :=
  m.regions.find? ⟨ref.space, start⟩ = some count ∧ ref.Among ref.space start count

theorem Machine.covers_inserted {s : SpaceId} {first : PageNum} {pages : Nat}
    (regions : m'.regions = m.regions.insert ⟨s, first⟩ pages) (h : m'.Covers start count ref) :
    (ref.space = s ∧ start = first ∧ ref.Among s first pages) ∨ m.Covers start count ref := by
  obtain ⟨found, among⟩ := h
  rw [regions] at found
  rcases Table.find?_insert_eq_some.1 found with ⟨he, rfl⟩ | ⟨-, found⟩
  · cases he
    exact .inl ⟨rfl, rfl, among⟩
  · exact .inr ⟨found, among⟩

theorem Machine.covers_copied {src dst : SpaceId} (regions : m'.regions = m.regions.copied src dst)
    (h : m'.Covers start count ref) : (ref.space = dst ∧ m.Covers start count ⟨src, ref.vpn⟩) ∨
      (m.Covers start count ref ∧ ¬ (ref.space = dst ∧ m.regions.find? ⟨src, start⟩ ≠ none)) := by
  obtain ⟨found, -, among⟩ := h
  rw [regions, Table.find?_copied] at found
  split at found
  · next hspace =>
      rcases Option.or_eq_some_iff.1 found with found | ⟨absent, found⟩
      · exact .inl ⟨hspace, found, rfl, among⟩
      · exact .inr ⟨⟨found, rfl, among⟩, fun present => present.2 absent⟩
  · next hspace => exact .inr ⟨⟨found, rfl, among⟩, fun present => hspace present.1⟩

/-- Request number `i` was to map a file to so many pages from some page on, and was granted. -/
def MapsAt (log : List Exchange) (i : Nat) (start : PageNum) (count : Nat) : Prop :=
  ∃ op s va va' length writable file offset, log[i]? = some (op, .mapped (.ok va')) ∧
    op.bare = .map s va length writable file offset ∧ va.vpnFloor = start ∧
      (length + (pageSize - 1)) / pageSize = count

theorem MapsAt.later (h : MapsAt log i start count) : MapsAt (log ++ new) i start count := by
  obtain ⟨op, s, va, va', length, writable, file, offset, hlog, hrest⟩ := h
  exact ⟨op, s, va, va', length, writable, file, offset,
    List.getElem?_append_left (List.getElem?_eq_some_iff.1 hlog).1 ▸ hlog, hrest⟩

namespace Operation

/-- No page is removed by itself from a recorded region, and no space is copied to itself. -/
def SparesRegions (m : Machine) : Operation → Prop
  | remove s va => ∀ start count, ¬ m.Covers start count ⟨s, va.vpnFloor⟩
  | fork src dst _ => src ≠ dst
  | _ => True

end Operation

/-- Requests that were served one after the other, none of which took a page out of a region by itself,
and where all pages and regions come from. -/
inductive Machine.Traces (m : Machine) : List Exchange → Machine → Origins → Prop where
  | nil : Traces m [] m .unknown
  | served {m₁ m' : Machine} {log : List Exchange} {o : Origins} {op : Operation} {a : Answer}
      (held : List PageRef) (run : Traces m log m₁ o) (spares : op.bare.SparesRegions m₁)
      (answered : op.perform { m₁ with held } = .ok a m') :
      Traces m (log ++ [(op, a)]) m' (o.after log.length m₁ m' op.bare a)

/-- Regions do not overlap, and each is full of the pages of one request to map a file, or of copies of
them. All pages of such a request are in such a region, except for what is left of failed copies. -/
structure Machine.Orderly (m : Machine) (log : List Exchange) (o : Origins) : Prop where
  unique : ∀ ref start start' count count', m.Covers start count ref → m.Covers start' count' ref →
    start = start'
  full : ∀ ref start count, m.Covers start count ref →
    m.core.types ref = some .file ∧ o.pages ref = o.regions ⟨ref.space, start⟩
  whole : ∀ ref i, ¬ o.remnants ref.space → o.pages ref = some i →
    ∃ start count, m.Covers start count ref
  recorded : ∀ ref count, m.regions.find? ref = some count →
    0 < count ∧ ∃ i, o.regions ref = some i ∧ MapsAt log i ref.vpn count

namespace Machine.Orderly

theorem covers (h : m.Orderly log o) (found : m.regions.find? ref = some count) :
    m.Covers ref.vpn count ref :=
  ⟨found, rfl, Nat.le_refl _, Nat.lt_add_of_pos_right (h.recorded ref count found).1⟩

theorem maps_later (h : m.Orderly log o) (new : List Exchange)
    (found : m.regions.find? ref = some count) :
    0 < count ∧ ∃ i, o.regions ref = some i ∧ MapsAt (log ++ new) i ref.vpn count := by
  obtain ⟨positive, i, hi, hmaps⟩ := h.recorded ref count found
  exact ⟨positive, i, hi, hmaps.later⟩

/-- When regions go only together with all their pages, and nothing else comes but single pages, the
rest stays as it was. -/
theorem prune (h : m.Orderly log o) (barren : ¬ op.Yields a)
    (regions : ∀ ref count, m'.regions.find? ref = some count → m.regions.find? ref = some count)
    (stays : ∀ ref start count, m.Covers start count ref →
      m'.Covers start count ref ∧ m'.core.types ref = some .file ∨
        ¬ m'.Covers start count ref ∧ m'.core.types ref = none)
    (remnants : ∀ s, o.remnants s → o.Leaves s op a ∨ ∀ vpn, m'.core.types ⟨s, vpn⟩ = none) :
    m'.Orderly (log ++ new) (o.after i m m' op a) := by
  have covered {ref : PageRef} {start : PageNum} {count : Nat} (hc : m'.Covers start count ref) :
      m.Covers start count ref ∧ m'.core.types ref = some .file := by
    have before : m.Covers start count ref := ⟨regions _ _ hc.1, hc.2⟩
    rcases stays ref start count before with ⟨-, file⟩ | ⟨gone, -⟩
    · exact ⟨before, file⟩
    · exact (gone hc).elim
  constructor
  case unique =>
    intro ref start start' count count' hc hc'
    exact h.unique ref start start' count count' (covered hc).1 (covered hc').1
  case full =>
    intro ref start count hc
    obtain ⟨before, file⟩ := covered hc
    obtain ⟨old, same⟩ := h.full ref start count before
    rw [Origins.after_kept old file, Origins.after_region hc.1, Origins.ofRegion_barren barren]
    exact ⟨file, same⟩
  case whole =>
    intro ref j intact hj
    obtain ⟨t, found, ⟨-, hj⟩ | ⟨-, hj⟩⟩ := Origins.after_pages hj
    · have before : ¬ o.remnants ref.space := fun left => by
        rcases remnants ref.space left with left | gone
        · exact intact left
        · exact nomatch (gone ref.vpn).symm.trans found
      obtain ⟨start, count, hc⟩ := h.whole ref j before hj
      rcases stays ref start count hc with ⟨hc', -⟩ | ⟨-, gone⟩
      · exact ⟨start, count, hc'⟩
      · exact nomatch gone.symm.trans found
    · rw [Origins.ofPage_barren barren] at hj
      exact nomatch hj
  case recorded =>
    intro ref count found
    rw [Origins.after_region found, Origins.ofRegion_barren barren]
    exact h.maps_later new (regions ref count found)

end Machine.Orderly

/-! A file is mapped where there was no page, so no region either. -/

/-- A region of new pages has come to be recorded, and nothing else has changed. -/
structure Machine.Extends (m m' : Machine) (s : SpaceId) (first : PageNum) (pages : Nat) : Prop where
  positive : 0 < pages
  regions : m'.regions = m.regions.insert ⟨s, first⟩ pages
  vacant : ∀ ref, ref.Among s first pages → m.core.types ref = none
  made : ∀ ref, ref.Among s first pages → m'.core.types ref = some .file
  others : ∀ ref, ¬ ref.Among s first pages → m'.core.types ref = m.core.types ref

namespace Machine.Extends

variable {s : SpaceId} {va va' : VirtAddr} {first start' : PageNum} {pages count' j : Nat} {writable : Bool}
  {length offset : Nat} {file : FileId}

theorem outside (x : m.Extends m' s first pages) (h : m.Orderly log o)
    (hc : m.Covers start count ref) : ¬ ref.Among s first pages :=
  fun among => nomatch (x.vacant ref among).symm.trans (h.full ref start count hc).1

theorem other (x : m.Extends m' s first pages) (h : m.Orderly log o)
    (hr : m.regions.find? ref = some count) : ref ≠ ⟨s, first⟩ := by
  rintro rfl
  exact x.outside h (h.covers hr) ⟨rfl, Nat.le_refl _, Nat.lt_add_of_pos_right x.positive⟩

theorem find_other (x : m.Extends m' s first pages) (hr : ref ≠ ⟨s, first⟩) :
    m'.regions.find? ref = m.regions.find? ref := by
  rw [x.regions, Table.find?_insert, if_neg hr.symm]

theorem find_first (x : m.Extends m' s first pages) : m'.regions.find? ⟨s, first⟩ = some pages := by
  rw [x.regions, Table.find?_insert, if_pos rfl]

theorem stays (x : m.Extends m' s first pages) (h : m.Orderly log o) (hc : m.Covers start count ref) :
    m'.Covers start count ref :=
  ⟨(x.find_other (x.other h hc.1)).trans hc.1, hc.2⟩

theorem unique (x : m.Extends m' s first pages) (h : m.Orderly log o) (hc : m'.Covers start count ref)
    (hc' : m'.Covers start' count' ref) : start = start' := by
  rcases covers_inserted x.regions hc with ⟨-, hstart, among⟩ | hold
  · rcases covers_inserted x.regions hc' with ⟨-, hstart', -⟩ | hold'
    · rw [hstart, hstart']
    · exact (x.outside h hold' among).elim
  · rcases covers_inserted x.regions hc' with ⟨-, -, among⟩ | hold'
    · exact (x.outside h hold among).elim
    · exact h.unique ref start start' count count' hold hold'

theorem full (x : m.Extends m' s va.vpnFloor pages) (h : m.Orderly log o)
    (hc : m'.Covers start count ref) : m'.core.types ref = some .file ∧
      (o.after i m m' (.map s va length writable file offset) (.mapped (.ok va'))).pages ref =
        (o.after i m m' (.map s va length writable file offset) (.mapped (.ok va'))).regions
          ⟨ref.space, start⟩ := by
  rw [Origins.after_region hc.1]
  rcases covers_inserted x.regions hc with ⟨hspace, hstart, among⟩ | hold
  · rw [Origins.after_new (x.vacant ref among) (x.made ref among)]
    exact ⟨x.made ref among, (if_pos (by rw [hspace, hstart])).symm⟩
  · obtain ⟨old, same⟩ := h.full ref start count hold
    have now := (x.others ref (x.outside h hold)).trans old
    rw [Origins.after_kept old now]
    exact ⟨now, same.trans (if_neg (x.other h hold.1)).symm⟩

theorem whole (x : m.Extends m' s va.vpnFloor pages) (h : m.Orderly log o)
    (intact : ¬ o.remnants ref.space)
    (hj : (o.after i m m' (.map s va length writable file offset) (.mapped (.ok va'))).pages ref =
      some j) : ∃ start count, m'.Covers start count ref := by
  obtain ⟨t, now, ⟨-, hj⟩ | ⟨old, -⟩⟩ := Origins.after_pages hj
  · obtain ⟨start, count, hc⟩ := h.whole ref j intact hj
    exact ⟨start, count, x.stays h hc⟩
  · by_cases among : ref.Among s va.vpnFloor pages
    · exact ⟨va.vpnFloor, pages, by rw [among.1]; exact x.find_first, rfl, among.2⟩
    · exact nomatch old.symm.trans ((x.others ref among).symm.trans now)

theorem recorded (x : m.Extends m' s va.vpnFloor pages) (h : m.Orderly log o)
    (maps : MapsAt (log ++ new) i va.vpnFloor pages) (hr : m'.regions.find? ref = some count) :
    0 < count ∧ ∃ j,
      (o.after i m m' (.map s va length writable file offset) (.mapped (.ok va'))).regions ref =
        some j ∧ MapsAt (log ++ new) j ref.vpn count := by
  rw [Origins.after_region hr]
  by_cases he : ref = ⟨s, va.vpnFloor⟩
  · subst he
    cases Option.some.inj (hr.symm.trans x.find_first)
    exact ⟨x.positive, i, if_pos rfl, maps⟩
  · rw [x.find_other he] at hr
    obtain ⟨positive, j, hj, hmaps⟩ := h.maps_later new hr
    exact ⟨positive, j, (if_neg he).trans hj, hmaps⟩

theorem orderly (x : m.Extends m' s va.vpnFloor pages) (h : m.Orderly log o)
    (maps : MapsAt (log ++ new) i va.vpnFloor pages) : m'.Orderly (log ++ new)
      (o.after i m m' (.map s va length writable file offset) (.mapped (.ok va'))) where
  unique _ _ _ _ _ := x.unique h
  full _ _ _ := x.full h
  whole _ _ := x.whole h
  recorded _ _ := x.recorded h maps

end Machine.Extends

/-! The regions of a space that is copied go to addresses where the copy's space had no page, so no
region either. -/

/-- The pages and regions of a space have come to be in another one too, and nothing else has changed. -/
structure Machine.Copies (m m' : Machine) (src dst : SpaceId) : Prop where
  regions : m'.regions = m.regions.copied src dst
  vacant : ∀ vpn t, m.core.types ⟨src, vpn⟩ = some t → m.core.types ⟨dst, vpn⟩ = none
  types : ∀ ref, m'.core.types ref = if ref.space = dst then
    (m.core.types ⟨src, ref.vpn⟩).or (m.core.types ref) else m.core.types ref

namespace Machine.Copies

variable {src dst : SpaceId} {order : Traversal} {vpn start' : PageNum} {count' j : Nat}

theorem exclusive (x : m.Copies m' src dst) (h : m.Orderly log o) (hc : m.Covers start count ⟨src, vpn⟩)
    (hc' : m.Covers start' count' ⟨dst, vpn⟩) : False :=
  nomatch (x.vacant vpn _ (h.full _ _ _ hc).1).symm.trans (h.full _ _ _ hc').1

theorem comes (x : m.Copies m' src dst) (hc : m.Covers start count ⟨src, vpn⟩) :
    m'.Covers start count ⟨dst, vpn⟩ :=
  ⟨by rw [x.regions, Table.find?_copied, if_pos rfl, hc.1, Option.some_or], rfl, hc.2.2⟩

theorem stays (x : m.Copies m' src dst) (h : m.Orderly log o) (hc : m.Covers start count ref) :
    m'.Covers start count ref := by
  refine ⟨?_, hc.2⟩
  rw [x.regions, Table.find?_copied]
  split
  · next hspace =>
      subst hspace
      cases hsrc : m.regions.find? ⟨src, start⟩ with
      | none => rw [Option.none_or, hc.1]
      | some n => exact (x.exclusive h (h.covers hsrc) (h.covers hc.1)).elim
  · exact hc.1

theorem types_come (x : m.Copies m' src dst) (old : m.core.types ⟨src, vpn⟩ = some t) :
    m'.core.types ⟨dst, vpn⟩ = some t := by
  rw [x.types, if_pos rfl, old, Option.some_or]

theorem types_stay (x : m.Copies m' src dst) (old : m.core.types ref = some t) :
    m'.core.types ref = some t := by
  rw [x.types]
  split
  · next hspace =>
      subst hspace
      cases hsrc : m.core.types ⟨src, ref.vpn⟩ with
      | none => rw [Option.none_or, old]
      | some t' => exact nomatch (x.vacant _ t' hsrc).symm.trans old
  · exact old

theorem unique (x : m.Copies m' src dst) (h : m.Orderly log o) (hc : m'.Covers start count ref)
    (hc' : m'.Covers start' count' ref) : start = start' := by
  rcases covers_copied x.regions hc with ⟨hspace, hold⟩ | ⟨hold, -⟩
  · rcases covers_copied x.regions hc' with ⟨-, hold'⟩ | ⟨hold', -⟩
    · exact h.unique _ start start' count count' hold hold'
    · subst hspace
      exact (x.exclusive h hold hold').elim
  · rcases covers_copied x.regions hc' with ⟨hspace, hold'⟩ | ⟨hold', -⟩
    · subst hspace
      exact (x.exclusive h hold' hold).elim
    · exact h.unique ref start start' count count' hold hold'

theorem full (x : m.Copies m' src dst) (h : m.Orderly log o) (hc : m'.Covers start count ref) :
    m'.core.types ref = some .file ∧ (o.after i m m' (.fork src dst order) (.flag true)).pages ref =
      (o.after i m m' (.fork src dst order) (.flag true)).regions ⟨ref.space, start⟩ := by
  rw [Origins.after_region hc.1]
  rcases covers_copied x.regions hc with ⟨hspace, hold⟩ | ⟨hold, own⟩
  · obtain ⟨old, same⟩ := h.full _ start count hold
    subst hspace
    have now := x.types_come old
    have present : m.regions.find? ⟨src, start⟩ ≠ none := Option.ne_none_iff_exists'.2 ⟨count, hold.1⟩
    rw [Origins.after_new (x.vacant _ _ old) now]
    exact ⟨now, (if_pos rfl).trans (same.trans (if_pos ⟨rfl, present⟩).symm)⟩
  · obtain ⟨old, same⟩ := h.full ref start count hold
    have now := x.types_stay old
    rw [Origins.after_kept old now]
    exact ⟨now, same.trans (if_neg own).symm⟩

theorem whole (x : m.Copies m' src dst) (h : m.Orderly log o)
    (intact : ¬ o.Leaves ref.space (.fork src dst order) (.flag true))
    (hj : (o.after i m m' (.fork src dst order) (.flag true)).pages ref = some j) :
    ∃ start count, m'.Covers start count ref := by
  obtain ⟨t, now, ⟨-, hj⟩ | ⟨-, hj⟩⟩ := Origins.after_pages hj
  · obtain ⟨start, count, hc⟩ := h.whole ref j (fun left => intact (.inr left)) hj
    exact ⟨start, count, x.stays h hc⟩
  · rw [Origins.ofPage] at hj
    split at hj
    · next hspace =>
        obtain ⟨start, count, hc⟩ := h.whole _ j (fun left => intact (.inl ⟨hspace, left⟩)) hj
        subst hspace
        exact ⟨start, count, x.comes hc⟩
    · exact nomatch hj

theorem recorded (x : m.Copies m' src dst) (h : m.Orderly log o)
    (hr : m'.regions.find? ref = some count) : 0 < count ∧ ∃ j,
      (o.after i m m' (.fork src dst order) (.flag true)).regions ref = some j ∧
        MapsAt (log ++ new) j ref.vpn count := by
  rw [Origins.after_region hr]
  rw [x.regions, Table.find?_copied] at hr
  have kept (hr : m.regions.find? ref = some count)
      (own : ¬ (ref.space = dst ∧ m.regions.find? ⟨src, ref.vpn⟩ ≠ none)) : 0 < count ∧ ∃ j,
        o.ofRegion i m ref (.fork src dst order) (.flag true) = some j ∧
          MapsAt (log ++ new) j ref.vpn count := by
    obtain ⟨positive, j, hj, hmaps⟩ := h.maps_later new hr
    exact ⟨positive, j, (if_neg own).trans hj, hmaps⟩
  split at hr
  · next hspace =>
      rcases Option.or_eq_some_iff.1 hr with hr | ⟨absent, hr⟩
      · obtain ⟨positive, j, hj, hmaps⟩ := h.maps_later new hr
        have present : m.regions.find? ⟨src, ref.vpn⟩ ≠ none := Option.ne_none_iff_exists'.2 ⟨count, hr⟩
        exact ⟨positive, j, (if_pos ⟨hspace, present⟩).trans hj, hmaps⟩
      · exact kept hr fun present => present.2 absent
  · next hspace => exact kept hr fun present => hspace present.1

theorem orderly (x : m.Copies m' src dst) (h : m.Orderly log o) :
    m'.Orderly (log ++ new) (o.after i m m' (.fork src dst order) (.flag true)) where
  unique _ _ _ _ _ := x.unique h
  full _ _ _ := x.full h
  whole _ _ := x.whole h
  recorded _ _ := x.recorded h

end Machine.Copies

namespace Machine.Orderly

theorem copyInPart {src dst : SpaceId} {order : Traversal} (h : m.Orderly log o)
    (regions : m'.regions = m.regions)
    (types : ∀ ref t, m.core.types ref = some t → m'.core.types ref = some t)
    (others : ∀ ref, ref.space ≠ dst → m'.core.types ref = m.core.types ref) :
    m'.Orderly (log ++ new) (o.after i m m' (.fork src dst order) (.flag false)) := by
  have covered {ref : PageRef} {start : PageNum} {n : Nat} : m'.Covers start n ref ↔
      m.Covers start n ref := by rw [Covers, regions, Covers]
  constructor
  case unique =>
    intro ref start start' n n' hc hc'
    exact h.unique ref start start' n n' (covered.1 hc) (covered.1 hc')
  case full =>
    intro ref start n hc
    obtain ⟨old, same⟩ := h.full ref start n (covered.1 hc)
    rw [Origins.after_kept old (types ref _ old), Origins.after_region hc.1]
    exact ⟨types ref _ old, same⟩
  case whole =>
    intro ref j intact hj
    have apart : ref.space ≠ dst := fun hspace => intact (.inl hspace)
    obtain ⟨t, now, ⟨-, hj⟩ | ⟨old, -⟩⟩ := Origins.after_pages hj
    · obtain ⟨start, n, hc⟩ := h.whole ref j (fun left => intact (.inr left)) hj
      exact ⟨start, n, covered.2 hc⟩
    · exact nomatch old.symm.trans ((others ref apart).symm.trans now)
  case recorded =>
    intro ref n hr
    rw [Origins.after_region hr]
    exact h.maps_later new (regions ▸ hr)

theorem unmap {s : SpaceId} {va : VirtAddr} {pages : Nat} (h : m.Orderly log o)
    (found : m.regions.find? ⟨s, va.vpnFloor⟩ = some pages)
    (regions : m'.regions = m.regions.erase ⟨s, va.vpnFloor⟩)
    (gone : ∀ ref, ref.Among s va.vpnFloor pages → m'.core.types ref = none)
    (others : ∀ ref, ¬ ref.Among s va.vpnFloor pages → m'.core.types ref = m.core.types ref) :
    m'.Orderly (log ++ new) (o.after i m m' (.unmap s va) (.accepted (.ok ()))) := by
  have hfind (ref : PageRef) : m'.regions.find? ref =
      if ⟨s, va.vpnFloor⟩ = ref then none else m.regions.find? ref := by
    rw [regions, Table.find?_erase]
  refine h.prune id (fun ref count hr => ?_) (fun ref start count hc => ?_) fun _ => .inl
  · rw [hfind] at hr
    split at hr
    · cases hr
    · exact hr
  · by_cases hkey : (⟨s, va.vpnFloor⟩ : PageRef) = ⟨ref.space, start⟩
    · have lost : m'.regions.find? ⟨ref.space, start⟩ = none := by rw [hfind, if_pos hkey]
      refine .inr ⟨fun hc' => Option.some_ne_none count (hc'.1.symm.trans lost), gone ref ?_⟩
      cases hkey
      cases Option.some.inj (found.symm.trans hc.1)
      exact hc.2
    · have hc' : m'.Covers start count ref := ⟨by rw [hfind, if_neg hkey, hc.1], hc.2⟩
      refine .inl ⟨hc', ?_⟩
      rw [others ref fun among => hkey ?_]
      · exact (h.full ref start count hc).1
      · have both : m.Covers va.vpnFloor pages ref := by
          obtain ⟨hspace, hamong⟩ := among
          exact ⟨hspace.symm ▸ found, rfl, hamong⟩
        rw [h.unique ref start va.vpnFloor count pages hc both, among.1]

theorem empty {s : SpaceId} (h : m.Orderly log o) (empties : op.Empties s a)
    (regions : ∀ ref, ref.space = s ∧ m'.regions.find? ref = none ∨
      m'.regions.find? ref = m.regions.find? ref ∧
        (ref.space = s → ∀ vpn, m.core.types ⟨s, vpn⟩ = none))
    (gone : ∀ vpn, m'.core.types ⟨s, vpn⟩ = none)
    (others : ∀ ref, ref.space ≠ s → m'.core.types ref = m.core.types ref) :
    m'.Orderly (log ++ new) (o.after i m m' op a) := by
  refine h.prune empties.barren (fun ref count found => ?_) (fun ref start count hc => ?_)
    fun s' left => ?_
  · rcases regions ref with ⟨-, lost⟩ | ⟨same, -⟩
    · exact nomatch lost.symm.trans found
    · exact same.symm.trans found
  · obtain ⟨old, -⟩ := h.full ref start count hc
    by_cases hs : ref.space = s
    · subst hs
      rcases regions ⟨ref.space, start⟩ with ⟨-, lost⟩ | ⟨-, vacant⟩
      · exact .inr ⟨fun hc' => Option.some_ne_none count (hc'.1.symm.trans lost), gone ref.vpn⟩
      · exact nomatch (vacant rfl ref.vpn).symm.trans old
    · rcases regions ⟨ref.space, start⟩ with ⟨hspace, -⟩ | ⟨same, -⟩
      · exact (hs hspace).elim
      · have hc' : m'.Covers start count ref := ⟨same.trans hc.1, hc.2⟩
        exact .inl ⟨hc', (others ref hs).trans old⟩
  · by_cases hs : s = s'
    · exact .inr (hs ▸ gone)
    · exact .inl (Origins.leaves_emptied empties hs left)

theorem step {whole : Operation} (h : m.Orderly log o) (recharts : m.Recharts m' op a)
    (spares : op.SparesRegions m) (bare : whole.bare = op) :
    m'.Orderly (log ++ [(whole, a)]) (o.after log.length m m' op a) := by
  cases recharts with
  | kept plain regions types =>
      refine h.prune plain.1 (fun ref count found => regions ▸ found) (fun ref start count hc => .inl ?_)
        fun s left => .inl (Origins.leaves_plain plain left)
      refine ⟨by rw [Covers, regions]; exact hc, types ref .file ?_ (h.full ref start count hc).1⟩
      rintro s va rfl rfl
      exact spares start count hc
  | emptied empties regions gone others => exact h.empty empties regions gone others
  | unmapped found regions gone others => exact h.unmap found regions gone others
  | @mapped s va va' length pages writable file offset count positive regions vacant made others =>
      have hlog : (log ++ [(whole, .mapped (.ok va'))])[log.length]? =
          some (whole, .mapped (.ok va')) := by
        rw [List.getElem?_append_right (Nat.le_refl _), Nat.sub_self]
        rfl
      have maps : MapsAt (log ++ [(whole, .mapped (.ok va'))]) log.length va.vpnFloor pages :=
        ⟨whole, s, va, va', length, writable, file, offset, hlog, bare, rfl, count⟩
      have x : m.Extends m' s va.vpnFloor pages := ⟨positive, regions, vacant, made, others⟩
      exact x.orderly h maps
  | copied regions vacant types =>
      have x : m.Copies m' _ _ := ⟨regions, vacant, types⟩
      exact x.orderly h
  | copiedInPart regions types others => exact h.copyInPart regions types others

end Machine.Orderly

namespace Machine

variable {frames : Nat} {sectors : Option Nat} {files : List File}
  {allocator : Allocator} {loan : HandleCount}
  {s : SpaceId} {va : VirtAddr}

theorem Traces.serves (run : m.Traces log m' o) : m.Serves log m' := by
  induction run with
  | nil => exact .nil
  | served held _ _ answered ih => exact .next held ih answered

theorem Traces.orderly (run : m.Traces log m' o) (tidy : m.Tidy n loan) (regional : m.Regional)
    (h : m.Orderly [] .unknown) : m'.Orderly log o := by
  induction run with
  | nil => exact h
  | @served m₁ m' log o op a held run spares answered ih =>
      have reached := run.serves.reaches
      have recharts := Operation.perform_recharts (m := { m₁ with held }) (reached.tidy tidy).sound
        (reached.regional tidy regional)
        (fun src dst order hop => by rw [hop] at spares; exact spares) answered
      have unheld : Orderly { m₁ with held } log o := ⟨ih.unique, ih.full, ih.whole, ih.recorded⟩
      exact unheld.step recharts spares rfl

theorem fresh_orderly (frames : Nat) (sectors : Option Nat) (files : List File)
    (allocator : Allocator := .buddy) :
    (fresh frames sectors files allocator).Orderly [] .unknown := by
  constructor
  case unique => exact fun _ _ _ _ _ hc => nomatch hc.1
  case full => exact fun _ _ _ hc => nomatch hc.1
  case whole => exact fun _ _ _ => nofun
  case recorded => exact fun _ _ => nofun

theorem Recharts.lost (recharts : m.Recharts m' (.unmap s va) a) (found : m.core.types ref = some t)
    (lost : m'.core.types ref ≠ some t) :
    m'.core.types ref = none ∧ ref.space = s ∧ ∃ count, m.Covers va.vpnFloor count ref := by
  cases recharts with
  | kept _ _ types => exact (lost (types ref t nofun found)).elim
  | emptied empties => exact empties.elim
  | @unmapped _ _ pages hregion _ gone others =>
      by_cases among : ref.Among s va.vpnFloor pages
      · obtain ⟨hspace, hamong⟩ := among
        exact ⟨gone ref ⟨hspace, hamong⟩, hspace, pages, hspace.symm ▸ hregion, rfl, hamong⟩
      · exact (lost ((others ref among).trans found)).elim

theorem Tidy.recharts_unmap (h : m.Tidy n loan) (regional : m.Regional)
    (answered : (Operation.unmap s va).perform m = .ok a m') : m.Recharts m' (.unmap s va) a :=
  Operation.perform_recharts h.sound regional
    (fun _ _ _ hop => by simp only [Operation.bare, reduceCtorEq] at hop) answered

theorem Tidy.unmap_covered (h : m.Tidy n loan) (regional : m.Regional) (hc : m.Covers start count ref) :
    ∃ m', (Operation.unmap ref.space start.pageStart).perform m = .ok (.accepted (.ok ())) m' ∧
      m'.core.types ref = none := by
  obtain ⟨aligned, hstart⟩ := regional.pageStart hc.1
  obtain ⟨m', run⟩ := unmap_recorded h aligned (hstart.symm ▸ hc.1)
  have answered : (Operation.unmap ref.space start.pageStart).perform m = .ok (.accepted (.ok ())) m' :=
    bind_ok.2 ⟨_, m', run, rfl⟩
  have regions : m'.regions = m.regions.erase ⟨ref.space, start.pageStart.vpnFloor⟩ :=
    Operation.perform_regions h.sound answered
  refine ⟨m', answered, ?_⟩
  cases h.recharts_unmap regional answered with
  | kept _ same =>
      have forgotten : m'.regions.find? ⟨ref.space, start⟩ = none := by
        rw [regions, Table.find?_erase, if_pos (by rw [hstart])]
      rw [same] at forgotten
      exact nomatch forgotten.symm.trans hc.1
  | emptied empties => exact empties.elim
  | unmapped found _ gone =>
      rw [hstart] at found gone
      cases Option.some.inj (found.symm.trans hc.1)
      exact gone ref hc.2

/-- A page of a mapped file is in the region that the request to map the file recorded, or in a copy of
the region. -/
structure Belongs (m : Machine) (log : List Exchange) (o : Origins) (i : Nat) (start : PageNum)
    (count : Nat) (ref : PageRef) : Prop where
  covers : m.Covers start count ref
  maps : MapsAt log i start count
  region : o.regions ⟨ref.space, start⟩ = some i
  file : m.core.types ref = some .file
  page : o.pages ref = some i

theorem Orderly.belongs (h : m.Orderly log o) (hc : m.Covers start count ref) :
    ∃ i, m.Belongs log o i start count ref := by
  obtain ⟨-, i, region, maps⟩ := h.recorded _ count hc.1
  obtain ⟨file, same⟩ := h.full ref start count hc
  exact ⟨i, hc, maps, region, file, same.trans region⟩

theorem Orderly.disjoint {start' : PageNum} {count' : Nat} (h : m.Orderly log o)
    (found : m.regions.find? ⟨s, start⟩ = some count)
    (found' : m.regions.find? ⟨s, start'⟩ = some count') :
    start = start' ∨ start.val + count ≤ start'.val ∨ start'.val + count' ≤ start.val := by
  have positive := (h.recorded _ _ found).1
  have positive' := (h.recorded _ _ found').1
  by_cases apart : start.val + count ≤ start'.val ∨ start'.val + count' ≤ start.val
  · exact .inr apart
  · obtain ⟨later, later'⟩ := not_or.1 apart
    -- the later one of the first pages would be in both regions
    rcases Nat.le_total start.val start'.val with hle | hle
    · exact .inl (h.unique ⟨s, start'⟩ start start' count count'
        ⟨found, rfl, hle, Nat.lt_of_not_le later⟩ (h.covers found'))
    · exact .inl (h.unique ⟨s, start⟩ start start' count count' (h.covers found)
        ⟨found', rfl, hle, Nat.lt_of_not_le later'⟩)

theorem Traces.serve {ops : List Operation} (run : m.Traces log m₁ o) (intact : ∀ s, ¬ o.remnants s)
    (spares : ∀ op ∈ ops, op.bare = op ∧ ∀ m, op.SparesRegions m)
    (h : m₁.serve ops = some (new, m')) :
    ∃ o', m.Traces (log ++ new) m' o' ∧ ∀ s, ¬ o'.remnants s := by
  induction ops generalizing m₁ log new o with
  | nil =>
      cases h
      exact ⟨o, (List.append_nil log).symm ▸ run, intact⟩
  | cons op rest ih =>
      obtain ⟨a, m₂, rest', first, hrest, rfl⟩ := serve_cons h
      obtain ⟨bare, hop⟩ := spares op List.mem_cons_self
      cases first with
      | served held whole answered =>
          have next := run.served held (bare.symm ▸ hop m₁) answered
          rw [bare] at next
          obtain ⟨o', hall, intact'⟩ := ih next (fun _ => Origins.leaves_whole whole intact)
            (fun op hop => spares op (List.mem_cons_of_mem _ hop)) hrest
          rw [List.append_assoc] at hall
          exact ⟨o', hall, intact'⟩

end Machine

/-- As long as no page is removed by itself from a recorded region, regions and mappings go together.
The regions of a space have no page in common. They are full of the pages of the mapping that recorded
them, or of copies of these, and to unmap takes no other page. Except for what is left of a failed copy
until the space is torn down, all pages of a mapping can be unmapped. -/
theorem regions_keep_to_mappings {frames : Nat} {sectors : Option Nat} {files : List File}
    {allocator : Allocator} (run : (Machine.fresh frames sectors files allocator).Traces log m o) :
    (∀ s start start' count count', m.regions.find? ⟨s, start⟩ = some count →
      m.regions.find? ⟨s, start'⟩ = some count' →
        start = start' ∨ start.val + count ≤ start'.val ∨ start'.val + count' ≤ start.val) ∧
    (∀ ref start count, m.Covers start count ref → ∃ i, m.Belongs log o i start count ref) ∧
    (∀ s va held a m', (Operation.unmap s va).perform { m with held } = .ok a m' →
      ∀ ref t, m.core.types ref = some t → m'.core.types ref ≠ some t → m'.core.types ref = none ∧
        ref.space = s ∧ ∃ i count, m.Belongs log o i va.vpnFloor count ref) ∧
    (∀ ref i, ¬ o.remnants ref.space → o.pages ref = some i →
      ∃ start count, m.Belongs log o i start count ref ∧ ∀ held, ∃ m',
        (Operation.unmap ref.space start.pageStart).perform { m with held } =
          .ok (.accepted (.ok ())) m' ∧ m'.core.types ref = none) := by
  have fresh := Machine.fresh_tidy frames sectors files allocator
  have reached := run.serves.reaches
  have tidy (held : List PageRef) : Machine.Tidy _ _ { m with held } :=
    (reached.tidy fresh).same rfl rfl
  have regional := reached.regional fresh (Machine.fresh_regional _ _ _ _)
  have h := run.orderly fresh (Machine.fresh_regional _ _ _ _) (Machine.fresh_orderly _ _ _ _)
  refine ⟨fun s start start' count count' => h.disjoint, fun ref start count => h.belongs,
    fun s va held a m' answered ref t found lost => ?_, fun ref i intact made => ?_⟩
  · have recharts := (tidy held).recharts_unmap regional answered
    obtain ⟨gone, hspace, count, hc⟩ := recharts.lost found lost
    obtain ⟨i, belongs⟩ := h.belongs hc
    exact ⟨gone, hspace, i, count, belongs⟩
  · obtain ⟨start, count, hc⟩ := h.whole ref i intact made
    obtain ⟨j, belongs⟩ := h.belongs hc
    cases Option.some.inj (belongs.page.symm.trans made)
    exact ⟨start, count, belongs, fun held => (tidy held).unmap_covered regional hc⟩

/-- A space with a mapped file of two pages is copied. The second page of the copy comes from the one
request to map the file, and is gone once the copy's region is unmapped. -/
theorem regions_keep_to_mappings_in_copy : ∃ log m o i m',
    (Machine.fresh 4 none [.ofData #[46] false]).Traces log m o ∧
    m.Belongs log o i ⟨0x10000⟩ 2 ⟨1, ⟨0x10001⟩⟩ ∧
    (Operation.unmap 1 (PageNum.pageStart ⟨0x10000⟩)).perform { m with held := [] } =
      .ok (.accepted (.ok ())) m' ∧ m'.core.types ⟨1, ⟨0x10001⟩⟩ = none := by
  have played : ((Machine.fresh 4 none [.ofData #[46] false]).serve [
      .map 0 (.ofBits 0x10000000) 8192 true 0 0, .newSpace, .fork 0 1 .asStored]).any (fun r =>
        decide (r.2.regions.find? ⟨1, ⟨0x10000⟩⟩ = some 2)) = true := by
    decide +kernel
  obtain ⟨⟨log, m⟩, hserved, hregion⟩ := (Option.any_eq_true _ _).1 played
  obtain ⟨o, run, intact⟩ := Machine.Traces.nil.serve (fun _ => id)
    (by simp [Operation.bare, Operation.SparesRegions]) hserved
  have hc : m.Covers ⟨0x10000⟩ 2 ⟨1, ⟨0x10001⟩⟩ :=
    ⟨of_decide_eq_true hregion, rfl, by decide, by decide⟩
  obtain ⟨disjoint, full, -, unmaps⟩ := regions_keep_to_mappings run
  obtain ⟨i, belongs⟩ := full _ _ _ hc
  obtain ⟨start, count, belongs', unmapped⟩ := unmaps _ i (intact 1) belongs.page
  obtain ⟨-, hle, hlt⟩ := belongs'.covers.2
  have same : start = ⟨0x10000⟩ := by
    rcases disjoint 1 start _ count 2 belongs'.covers.1 hc.1 with same | later | earlier
    · exact same
    · exact absurd (Nat.lt_of_lt_of_le hlt later) (by decide)
    · exact absurd (Nat.le_trans earlier hle) (by decide)
  subst same
  obtain ⟨m', answered, gone⟩ := unmapped []
  exact ⟨log, m, o, i, m', run, belongs, answered, gone⟩

end DemandPaging
