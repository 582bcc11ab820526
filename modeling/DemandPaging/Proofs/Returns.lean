import DemandPaging.Proofs.Histories
import DemandPaging.Proofs.Snapshots

/-!
What pages hold while they are out of memory, and what memory holds of them once they are back.
-/

namespace DemandPaging

open DemandPaging.Core

variable {s : SpaceId} {va sp : VirtAddr} {ref : PageRef} {bytes : PageBytes}

theorem Deed.keeps_live {E : Core → Prop} {F : Flat} {d : Deed} (lawful : d.Lawful E F)
    (spared : ¬ d.Alters ref) (live : F ref = some (.live bytes)) :
    d.apply F ref = some (.live bytes) := by
  by_cases target : d.target = some ref
  · cases d with
    | read | chart => exact live
    | lose => exact lawful.elim
    | write => exact (spared (Option.some.inj target)).elim
    | drop => exact (spared (Option.some.inj target)).elim
    | add r page =>
        cases target
        exact nomatch live.symm.trans lawful
    | make r init got =>
        cases target
        rcases lawful with file | ⟨pending, -⟩
        · exact nomatch live.symm.trans file
        · exact nomatch live.symm.trans pending
    | fail r kept =>
        cases target
        rcases lawful with file | ⟨init, pending, -⟩
        · exact nomatch live.symm.trans file
        · exact nomatch live.symm.trans pending
    | share src dst whole =>
        cases target
        exact nomatch live.symm.trans lawful.2.1
  · rw [Deed.apply_apart target, live]

theorem Flat.Lawful.keeps_live {E : Core → Prop} {F : Flat} {ds : List Deed} (h : F.Lawful E ds)
    (spared : ∀ d ∈ ds, ¬ d.Alters ref) (live : F ref = some (.live bytes)) :
    Deed.applyAll F ds ref = some (.live bytes) := by
  induction ds generalizing F with
  | nil => exact live
  | cons d ds ih =>
      rw [List.forall_mem_cons] at spared
      exact ih h.2 spared.2 (Deed.keeps_live h.1 spared.1 live)

theorem FileFace.ReadsWhole.extract {face : FileFace} {offset count : Nat} {got : Array UInt8}
    (h : face.ReadsWhole) (got_of : face.Delivers offset count got) :
    got = face.data.extract offset (offset + count) := by
  obtain ⟨k, rfl⟩ := got_of
  rw [h]
  refine Array.ext_getElem? fun i => ?_
  rw [Array.getElem?_extract, Array.getElem?_extract]
  split <;> split <;> first | rfl | omega

namespace Core

variable {c c' : Core} {ds : List Deed} {hops : List (Core × Core)} {hop : Core × Core} {page : Page}
  {backing : FileBacking}

theorem Steps.keeps_live (h : Steps c ds c') (hs : c.Sound) (hg : c.Guarded fun _ => False)
    (hc : c.Calm) (spared : ∀ d ∈ ds, ¬ d.Alters ref) (live : c.flat ref = some (.live bytes)) :
    c'.flat ref = some (.live bytes) := by
  obtain ⟨lawful, flat, -⟩ := h.lawful hs hg hc
  rw [flat]
  exact lawful.keeps_live spared live

/-- What is there of a page that is out of memory: what is in its slot, or what its file has for it. -/
def stored (c : Core) : PageKind → PageBytes
  | .anon (some slot) => c.swap.pageIn slot
  | .file backing => PageBytes.ofArray
      ((c.files backing.file).data.extract backing.offset (backing.offset + backing.readBytes))
  | _ => PageBytes.zero

/-- The bytes of a page that was used, whether memory has them or not. -/
def contents (c : Core) (ref : PageRef) : Option PageBytes :=
  (c.looks ref).bind fun look =>
    if look.kind.isUninit then none else some (look.content.getD (c.stored look.kind))

theorem contents_vacant (vacant : c.pages.find? ref = none) : c.contents ref = none := by
  rw [contents, looks_vacant vacant, Option.bind_none]

theorem contents_unused (found : c.pages.find? ref = some page)
    (unused : page.kind.isUninit = true) : c.contents ref = none := by
  rw [contents, looks_found found, Option.bind_some]
  exact if_pos unused

theorem contents_used (found : c.pages.find? ref = some page) (used : page.kind.isUninit = false) :
    c.contents ref = some ((c.held? ref).getD (c.stored page.kind)) := by
  rw [contents, held?, looks_found found, Option.bind_some, Option.bind_some]
  refine if_neg ?_
  rw [show (c.lookOf ref page).kind = page.kind from rfl, used]
  exact Bool.false_ne_true

theorem held_found (found : c.pages.find? ref = some page) :
    c.held? ref = page.frame.map fun _ => c.bytes page := by
  rw [held?, looks_found found, Option.bind_some]
  rfl

theorem contents_away (found : c.pages.find? ref = some page) (away : page.frame = none)
    (used : page.kind.isUninit = false) : c.contents ref = some (c.stored page.kind) := by
  rw [contents_used found used, held_found found, away]
  rfl

theorem contents_live (live : c.flat ref = some (.live bytes)) : c.contents ref = some bytes := by
  obtain ⟨page, found, shows⟩ := Option.map_eq_some_iff.1 live
  unfold cell at shows
  cases kind : page.kind with
  | uninit target init =>
      rw [kind] at shows
      cases target <;> exact nomatch shows
  | file backing =>
      rw [kind] at shows
      exact nomatch shows
  | anon slot =>
      rw [kind] at shows
      cases shows
      rw [contents_used found (by rw [kind]; rfl), held_found found]
      cases away : page.frame with
      | some id => rfl
      | none =>
          refine congrArg some ?_
          cases slot with
          | some slot => rw [bytes_slot away kind, kind]; rfl
          | none =>
              rw [bytes_none away fun slot same => (nomatch kind.symm.trans same), kind]
              rfl

/-- Memory has these bytes or nothing of the page. -/
def Holds (c : Core) (ref : PageRef) (bytes : PageBytes) : Prop :=
  ∀ now, c.held? ref = some now → now = bytes

theorem holds_live (live : c.flat ref = some (.live bytes)) : c.Holds ref bytes := by
  intro now held
  obtain ⟨page, found, -⟩ := Option.map_eq_some_iff.1 live
  have contents := contents_live live
  cases used : page.kind.isUninit with
  | true => exact nomatch contents.symm.trans (contents_unused found used)
  | false =>
      rw [contents_used found used, held] at contents
      exact Option.some.inj contents

/-- When the page comes back to memory, these are the bytes that are there of it. -/
def Refetches (ref : PageRef) (bytes : PageBytes) (hop : Core × Core) : Prop :=
  hop.1.held? ref = none → hop.2.held? ref ≠ none → hop.1.contents ref = some bytes

def Carries (ref : PageRef) (hop : Core × Core) : Prop :=
  ∀ now, hop.2.held? ref = some now →
    hop.1.held? ref = some now ∨ (hop.1.held? ref = none ∧ hop.1.contents ref = some now)

theorem Carries.holds_iff (h : Carries ref hop) (before : hop.1.Holds ref bytes) :
    hop.2.Holds ref bytes ↔ Refetches ref bytes hop := by
  constructor
  · intro holds away back
    obtain ⟨now, held⟩ := Option.ne_none_iff_exists'.1 back
    rcases h now held with stayed | ⟨-, contents⟩
    · exact nomatch away.symm.trans stayed
    · rw [contents, holds now held]
  · intro returns now held
    rcases h now held with stayed | ⟨away, contents⟩
    · exact before now stayed
    · have back : hop.2.held? ref ≠ none := by
        rw [held]
        exact nofun
      exact Option.some.inj (contents.symm.trans (returns away back))

theorem Carries.of_live (live : hop.1.flat ref = some (.live bytes))
    (live' : hop.2.flat ref = some (.live bytes)) : Carries ref hop := by
  intro now held
  obtain rfl := holds_live live' now held
  cases before : hop.1.held? ref with
  | none => exact .inr ⟨rfl, contents_live live⟩
  | some old => exact .inl (congrArg some (holds_live live old before))

theorem Backs.contents (h : c.Backs ref backing) (away : c.held? ref = none) :
    c.contents ref = some (c.stored (.file backing)) := by
  obtain ⟨look, found, kind⟩ := h
  rw [held?, found, Option.bind_some] at away
  rw [Core.contents, found, Option.bind_some, away, kind]
  rfl

theorem Step.carries (h : Step c ds c') (hs : c.Sound) (shielded : c.Shielded ref)
    (whole : (c.files backing.file).ReadsWhole) (backs : c.Backs ref backing)
    (spared : ∀ d ∈ ds, ¬ d.Alters ref) : Carries ref (c, c') := by
  intro now held
  refine ((h.keeps_file hs shielded backs spared).2 now held).imp_right ?_
  rintro ⟨away, got, got_of, rfl⟩
  exact ⟨away, by rw [backs.contents away, whole.extract got_of]; rfl⟩

theorem Trail.carries (h : Trail c hops ds c') (hs : c.Sound) (hg : c.Guarded fun _ => False)
    (hc : c.Calm) (spared : ∀ d ∈ ds, ¬ d.Alters ref) (found : c.pages.find? ref = some page)
    (used : page.kind.isUninit = false)
    (whole : ∀ backing, page.kind = .file backing → (c.files backing.file).ReadsWhole) :
    ∀ hop ∈ hops, Carries ref hop := by
  intro hop mem
  obtain ⟨before, after, ds₁, es, ds₂, -, rfl, trail, step⟩ := h.split mem
  rw [List.forall_mem_append, List.forall_mem_append] at spared
  have run := trail.steps
  have hs₁ := run.sound hs
  have hg₁ := run.guarded_of_calm hs hc hg
  rcases @cell_used c page used with cell | cell
  · obtain ⟨backing, kind⟩ : ∃ backing, page.kind = .file backing := by
      unfold Core.cell at cell
      cases kind : page.kind with
      | file backing => exact ⟨backing, rfl⟩
      | anon slot =>
          rw [kind] at cell
          exact nomatch cell
      | uninit => exact nomatch (congrArg PageKind.isUninit kind).symm.trans used
    have backs : c.Backs ref backing := ⟨_, looks_found found, kind⟩
    exact step.carries hs₁ (hg₁.shielded ref) (run.readsWhole hs (whole backing kind))
      (run.keeps_file hs hg hc backs spared.1.1) spared.1.2
  · have live : c.flat ref = some (.live (c.bytes page)) := by rw [flat_found found, cell]
    have live₁ := run.keeps_live hs hg hc spared.1.1 live
    exact .of_live live₁ (step.steps.keeps_live hs₁ hg₁ (run.calm hc) spared.1.2 live₁)

end Core

variable {m m' : Machine} {log : List Exchange} {hops : List (Core × Core)} {page : Page}

theorem Traced.holds_iff (h : Traced ref m log hops m') (settled : m.Settled) (calm : m.core.Calm)
    (found : m.core.pages.find? ref = some page) (used : page.kind.isUninit = false)
    (whole : ∀ backing, page.kind = .file backing → (m.core.files backing.file).ReadsWhole)
    (holds : m.core.Holds ref bytes) :
    (∀ hop ∈ hops, hop.2.Holds ref bytes) ↔ ∀ hop ∈ hops, Refetches ref bytes hop := by
  obtain ⟨ds, trail, spared⟩ := h.trail (Option.ne_none_iff_exists'.2 ⟨page, found⟩)
  refine trail.upheld_iff (P := (Holds · ref bytes)) holds fun hop mem before => ?_
  exact (trail.carries settled.sound settled.guarded calm spared found used whole hop mem).holds_iff
    before

theorem Traced.refetches_iff {kind : PageKind} {writable dirty : Bool}
    (h : Traced ref m log hops m') (settled : m.Settled) (calm : m.core.Calm)
    (look : m.core.looks ref = some ⟨kind, writable, none, dirty⟩) (used : kind.isUninit = false)
    (whole : ∀ backing, kind = .file backing → (m.core.files backing.file).ReadsWhole) :
    (∀ hop ∈ hops, hop.2.Holds ref bytes) ↔ ∀ hop ∈ hops, Refetches ref bytes hop := by
  obtain ⟨page, found, same⟩ := Option.map_eq_some_iff.1 look
  obtain rfl : page.kind = kind := congrArg Look.kind same
  refine h.holds_iff settled calm found used whole fun now held => ?_
  rw [held?, look] at held
  exact absurd held.symm (Option.some_ne_none now)

theorem Traced.live (h : Traced ref m log hops m') (settled : m.Settled) (calm : m.core.Calm)
    (live : m.core.flat ref = some (.live bytes)) : ∀ hop ∈ hops, hop.2.Holds ref bytes := by
  intro hop mem
  obtain ⟨page, found, -⟩ := Option.map_eq_some_iff.1 live
  obtain ⟨ds, trail, spared⟩ := h.trail (Option.ne_none_iff_exists'.2 ⟨page, found⟩)
  obtain ⟨before, after, ds₁, es, ds₂, -, rfl, trail₁, step⟩ := trail.split mem
  rw [List.forall_mem_append] at spared
  exact holds_live ((trail₁.steps.tail step).keeps_live settled.sound settled.guarded calm spared.1 live)

theorem Traced.reads_held (h : Traced ref m log hops m') (hs : m.core.Sound)
    (holds : ∀ hop ∈ hops, hop.2.Holds ref bytes) {length : Nat} {got : Array UInt8}
    (read : (.read s va length sp, .bytes (some got)) ∈ log) {x : ByteAt}
    (hx : x ∈ ByteAt.along s va got.toList) (href : x.ref = ref) : x.byte = bytes.byteAt x.offset := by
  obtain ⟨hop, mem, now, held, hbyte⟩ := (h.shown hs read).2 x hx
  rw [← hbyte, holds hop mem now (href ▸ held)]

namespace PageBytes

theorem size_toArray (page : PageBytes) : page.toArray.size = pageSize := by
  rw [toArray, slice, Array.size_ofFn]

theorem getElem?_toArray {page : PageBytes} {i : Nat} (h : i < pageSize) :
    page.toArray[i]? = some (page.byteAt i) := by
  rw [toArray, getElem?_slice h, Nat.zero_add]

theorem toArray_inj {p q : PageBytes} : p.toArray = q.toArray ↔ p = q := by
  refine ⟨fun h => ext_byteAt fun i hi => ?_, congrArg toArray⟩
  rw [← Option.some.injEq, ← getElem?_toArray hi, ← getElem?_toArray hi, h]

end PageBytes

theorem VirtAddr.pageOffset_pageFloor (va : VirtAddr) : va.pageFloor.pageOffset = 0 :=
  beq_iff_eq.1 va.isPageAligned_pageFloor

theorem Traced.reads_page {got : Array UInt8} (h : Traced ⟨s, va.vpnFloor⟩ m log hops m')
    (hs : m.core.Sound) (holds : ∀ hop ∈ hops, hop.2.Holds ⟨s, va.vpnFloor⟩ bytes)
    (read : (.read s va.pageFloor pageSize sp, .bytes (some got)) ∈ log) : got = bytes.toArray := by
  have size := (h.shown hs read).1
  have row : ByteAt.row ⟨s, va.pageFloor.vpnFloor⟩ va.pageFloor.pageOffset got.toList =
      ByteAt.along s va.pageFloor got.toList :=
    ByteAt.row_eq_along (Nat.le_of_eq (by
      rw [VirtAddr.pageOffset_pageFloor, Array.length_toList, size, Nat.zero_add]))
  rw [VirtAddr.vpnFloor_pageFloor, VirtAddr.pageOffset_pageFloor] at row
  refine Array.ext_getElem? fun i => ?_
  by_cases hi : i < pageSize
  · have hlt : i < got.size := size ▸ hi
    have hget : got[i]? = some got[i] := Array.getElem?_eq_getElem hlt
    have hmem : ⟨⟨s, va.vpnFloor⟩, 0 + i, got[i]⟩ ∈ ByteAt.row ⟨s, va.vpnFloor⟩ 0 got.toList :=
      ByteAt.row_mem (Array.getElem?_toList.trans hget)
    rw [Nat.zero_add, row] at hmem
    have hbyte := h.reads_held hs holds read hmem rfl
    rw [hget, PageBytes.getElem?_toArray hi]
    exact congrArg some hbyte
  · rw [Array.getElem?_eq_none (size ▸ Nat.le_of_not_lt hi),
      Array.getElem?_eq_none (bytes.size_toArray ▸ Nat.le_of_not_lt hi)]

end DemandPaging
