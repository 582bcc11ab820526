import DemandPaging.Proofs.Lending

/-!
What a page keeps for as long as it is there: its page table, whether it may be written to and its
type. What it is to become, and the handles it holds for that, it keeps until it is used.
-/

namespace DemandPaging

open DemandPaging.Core

namespace PageKind

@[simp] theorem isUninit_twin (kind : PageKind) : kind.twin.isUninit = kind.isUninit := by
  cases kind <;> rfl

@[simp] theorem pageType_twin (kind : PageKind) : kind.twin.pageType = kind.pageType := by
  cases kind <;> rfl

@[simp] theorem handles_twin (kind : PageKind) : kind.twin.handles = kind.handles := by
  cases kind <;> rfl

@[simp] theorem twin_twin (kind : PageKind) : kind.twin.twin = kind.twin := by
  cases kind <;> rfl

theorem twin_unused {kind : PageKind} (h : kind.isUninit = true) : kind.twin = kind := by
  cases kind with
  | uninit => rfl
  | anon | file => exact nomatch h

end PageKind

/-- The page at a later time; a page that was not put to use meanwhile is what it was, wherever its
contents are. -/
structure Page.Remains (idle : Prop) (page page' : Page) : Prop where
  table : page'.table = page.table
  writable : page'.writable = page.writable
  pageType : page'.kind.pageType = page.kind.pageType
  used : page.kind.isUninit = false → page'.kind.isUninit = false
  kind : idle → page'.kind.twin = page.kind.twin

namespace Page.Remains

variable {idle idle' : Prop} {page page' page'' : Page}

theorem moved (page : Page) (frame : Option FrameId) (time : Nat) (cow : Bool) :
    page.Remains idle { page with frame, lastAccess := time, cow } :=
  ⟨rfl, rfl, rfl, id, fun _ => rfl⟩

theorem mono (h : page.Remains idle page') (himp : idle' → idle) : page.Remains idle' page' :=
  ⟨h.table, h.writable, h.pageType, h.used, fun hi => h.kind (himp hi)⟩

theorem trans (h : page.Remains idle page') (h' : page'.Remains idle page'') :
    page.Remains idle page'' where
  table := h'.table.trans h.table
  writable := h'.writable.trans h.writable
  pageType := h'.pageType.trans h.pageType
  used hu := h'.used (h.used hu)
  kind hi := (h'.kind hi).trans (h.kind hi)

theorem isUninit (h : page.Remains idle page') (hi : idle) :
    page'.kind.isUninit = page.kind.isUninit := by
  rw [← PageKind.isUninit_twin, h.kind hi, PageKind.isUninit_twin]

theorem handles (h : page.Remains idle page') (hi : idle) : page'.kind.handles = page.kind.handles := by
  rw [← PageKind.handles_twin, h.kind hi, PageKind.handles_twin]

theorem unused (h : page.Remains idle page') (hi : idle) (unused : page.kind.isUninit = true) :
    page'.kind = page.kind := by
  have unused' : page'.kind.isUninit = true := (h.isUninit hi).trans unused
  rw [← PageKind.twin_unused unused', h.kind hi, PageKind.twin_unused unused]

end Page.Remains

namespace Core

variable {c c' c₁ : Core} {ref r : PageRef} {page p' : Page} {ds : List Deed} {kind kind' : PageKind}
  {bytes bytes' : PageBytes} {entry : PageRef} {idle : Prop}

theorem Saves.twin (h : c.Saves bytes entry kind kind' c₁) : kind'.twin = kind.twin := by
  cases h <;> rfl

theorem Fills.twin (h : c.Fills ref bytes kind kind' bytes' c₁ ds) :
    kind'.pageType = kind.pageType ∧ ((∀ d ∈ ds, ¬ d.Settles ref) → kind'.twin = kind.twin) := by
  have made {kind'' : PageKind} {init : Option Initializer}
      (idle : ∀ d ∈ [Deed.make ref init bytes'], ¬ d.Settles ref) : kind''.twin = kind.twin :=
    (idle _ List.mem_cons_self rfl).elim
  cases h with
  | zero | slot | file => exact ⟨rfl, fun _ => rfl⟩
  | newAnon | newFile => exact ⟨rfl, made⟩
  | made => exact ⟨PageTarget.pageType_kind _, made⟩

theorem remains_of_change {p : Page} (old : c.pages.find? r = some p)
    (changed : c'.pages = c.pages.insert r p') (same : r = ref → p.Remains idle p')
    (found : c.pages.find? ref = some page) :
    ∃ page', c'.pages.find? ref = some page' ∧ page.Remains idle page' := by
  rw [changed, Table.find?_insert]
  by_cases hr : r = ref
  · cases Option.some.inj (old.symm.trans (hr ▸ found))
    exact ⟨p', if_pos hr, same hr⟩
  · exact ⟨page, (if_neg hr).trans found, .moved page _ _ _⟩

theorem remains_of_add (vacant : c.pages.find? r = none) (changed : c'.pages = c.pages.insert r p')
    (found : c.pages.find? ref = some page) :
    ∃ page', c'.pages.find? ref = some page' ∧ page.Remains idle page' := by
  refine ⟨page, ?_, .moved page _ _ _⟩
  rw [changed, Table.find?_insert, if_neg (ne_of_found found vacant), found]

theorem remains_of_erase (changed : c'.pages = c.pages.erase r) (stays : r ≠ ref)
    (found : c.pages.find? ref = some page) :
    ∃ page', c'.pages.find? ref = some page' ∧ page.Remains idle page' :=
  ⟨page, by rw [changed, Table.find?_erase, if_neg stays, found], .moved page _ _ _⟩

theorem remains_of_share {src dst : PageRef} {p : Page} {id : FrameId} {frame : Frame}
    (old : c.pages.find? src = some p) (vacant : c.pages.find? dst = none)
    (changed : c'.pages = (c.share src dst p id frame).pages)
    (found : c.pages.find? ref = some page) :
    ∃ page', c'.pages.find? ref = some page' ∧ page.Remains idle page' := by
  obtain ⟨page₁, found₁, same⟩ : ∃ page₁, (c.setPage dst ⟨dst.space, p.writable, some id,
      p.lastAccess, true, p.kind.twin⟩).pages.find? ref = some page₁ ∧ page.Remains idle page₁ :=
    remains_of_add vacant rfl found
  have old₁ : (c.setPage dst ⟨dst.space, p.writable, some id, p.lastAccess, true,
      p.kind.twin⟩).pages.find? src = some p :=
    (Table.find?_insert_of_ne (Ne.symm (ne_of_found old vacant))).trans old
  obtain ⟨page₂, found₂, same'⟩ := remains_of_change old₁ changed (fun _ => .moved p _ _ _) found₁
  exact ⟨page₂, found₂, same.trans same'⟩

theorem Step.remains (h : Step c ds c') (found : c.pages.find? ref = some page)
    (stays : .drop ref ∉ ds) : ∃ page', c'.pages.find? ref = some page' ∧
      page.Remains (∀ d ∈ ds, ¬ d.Settles ref) page' := by
  cases h with
  | touch old => exact remains_of_change old rfl (fun _ => .moved _ _ _ _) found
  | add vacant => exact remains_of_add vacant rfl found
  | @evict c₁ r p id phys kind old _ saved =>
      have htwin := saved.twin
      have hused := saved.used
      obtain ⟨swap, files, rfl⟩ := saved.core_eq
      refine remains_of_change old rfl (fun _ => ⟨rfl, rfl, ?_, fun _ => hused, fun _ => htwin⟩) found
      rw [← PageKind.pageType_twin, htwin, PageKind.pageType_twin]
  | fill old away free filled =>
      obtain ⟨htype, htwin⟩ := filled.twin
      have hused := filled.used.1
      obtain ⟨swap, programs, rfl, -⟩ := filled.core_eq
      exact remains_of_change old rfl
        (fun hr => ⟨rfl, rfl, htype, fun _ => hused, fun idle => htwin (hr ▸ idle)⟩) found
  | refuse old => exact remains_of_change old rfl (fun _ => .moved _ _ _ _) found
  | fail old away kind free made =>
      obtain ⟨programs, rfl, -⟩ := made.core_eq
      refine remains_of_change old rfl (fun hr => ⟨rfl, rfl, ?_, fun hused => ?_, fun idle => ?_⟩) found
      · rw [kind]
        rfl
      · rw [kind] at hused
        exact nomatch hused
      · exact (idle _ List.mem_cons_self hr).elim
  | copy old =>
      exact remains_of_change old (congrArg (Table.insert · _ _) (diverge_pages c _ _ _ _))
        (fun _ => .moved _ _ _ _) found
  | lose old =>
      exact remains_of_change old (congrArg (Table.insert · _ _) (diverge_pages c _ _ _ _))
        (fun _ => .moved _ _ _ _) found
  | own old => exact remains_of_change old rfl (fun _ => .moved _ _ _ _) found
  | share old _ vacant => exact remains_of_share old vacant rfl found
  | shareHalf old _ vacant _ _ _ mapped =>
      rcases mapped with rfl | rfl
      · exact remains_of_share old vacant rfl found
      · exact remains_of_share old vacant rfl found
  | dropAway _ _ disposed =>
      obtain ⟨swap, files, rfl⟩ := disposed.core_eq
      exact remains_of_erase rfl (fun he => stays (he ▸ List.mem_cons_self)) found
  | drop _ _ _ disposed =>
      obtain ⟨swap, files, rfl⟩ := disposed.core_eq
      exact remains_of_erase (disown_pages _ _ _ _) (fun he => stays (he ▸ List.mem_cons_self)) found
  | _ => exact ⟨page, found, .moved page _ _ _⟩

theorem Steps.remains (h : Steps c ds c') (found : c.pages.find? ref = some page)
    (stays : .drop ref ∉ ds) : ∃ page', c'.pages.find? ref = some page' ∧
      page.Remains (∀ d ∈ ds, ¬ d.Settles ref) page' := by
  induction h with
  | refl => exact ⟨page, found, .moved page _ _ _⟩
  | tail _ step ih =>
      obtain ⟨page₁, found₁, same⟩ := ih fun hd => stays (List.mem_append_left _ hd)
      obtain ⟨page₂, found₂, same'⟩ := step.remains found₁ fun hd => stays (List.mem_append_right _ hd)
      exact ⟨page₂, found₂, (same.mono fun idle d hd => idle d (List.mem_append_left _ hd)).trans
        (same'.mono fun idle d hd => idle d (List.mem_append_right _ hd))⟩

end Core

namespace Table

variable {κ α M : Type} [AddCommMonoid M]

theorem total_filterKeys (t : Table κ α) (p : κ → Bool) (f : α → M) :
    (t.filterKeys p).total f + (t.filterKeys fun k => !p k).total f = t.total f := by
  obtain ⟨rows, nodup⟩ := t
  simp only [total, filterKeys]
  clear nodup
  induction rows with
  | nil => simp
  | cons row rest ih =>
      cases hp : p row.1 <;> simp only [List.filter_cons, hp, Bool.not_true, Bool.not_false, if_pos,
        Bool.false_eq_true, if_false, List.map_cons, List.sum_cons, ← ih]
      · exact add_left_comm _ _ _
      · exact add_assoc _ _ _

theorem total_congr [DecidableEq κ] {t u : Table κ α} {f : α → M}
    (same : ∀ k, (t.find? k).map f = (u.find? k).map f) :
    t.total f = u.total f := by
  have nodup (t : Table κ α) : (t.rows.map fun row => (row.1, f row.2)).Nodup := by
    refine .of_map Prod.fst ?_
    rw [List.map_map]
    exact t.nodup
  have mem (t : Table κ α) (x : κ × M) :
      x ∈ t.rows.map (fun row => (row.1, f row.2)) ↔ (t.find? x.1).map f = some x.2 := by
    obtain ⟨k, v⟩ := x
    simp only [List.mem_map, Prod.exists, Prod.mk.injEq, Option.map_eq_some_iff, find?_eq_some]
    constructor
    · rintro ⟨k', a, hrow, rfl, rfl⟩
      exact ⟨a, hrow, rfl⟩
    · rintro ⟨a, hrow, rfl⟩
      exact ⟨k, a, hrow, rfl, rfl⟩
  have perm := (List.perm_ext_iff_of_nodup (nodup t) (nodup u)).2 fun x => by rw [mem, mem, same]
  have hsum := (perm.map Prod.snd).sum_eq
  rwa [List.map_map, List.map_map] at hsum

end Table

def Machine.lentTo (m : Machine) (s : SpaceId) : HandleCount :=
  (m.pages.filterKeys fun ref => ref.space == s).total fun page => page.kind.handles

namespace Machine

variable {m m' : Machine} {s : SpaceId}

theorem lent_of_others (others : ∀ ref, ref.space ≠ s →
      (m'.pages.find? ref).map (fun page => page.kind.handles) =
        (m.pages.find? ref).map fun page => page.kind.handles) :
    m'.core.lent + m.lentTo s = m.core.lent + m'.lentTo s := by
  have hothers := Table.total_congr (t := m'.pages.filterKeys fun ref => !(ref.space == s))
    (u := m.pages.filterKeys fun ref => !(ref.space == s)) (f := fun page => page.kind.handles) fun ref => by
      rw [Table.find?_filterKeys, Table.find?_filterKeys]
      split
      · next hne => exact others ref fun he => by simp [he] at hne
      · rfl
  have hsplit := m.pages.total_filterKeys (fun ref => ref.space == s) fun page => page.kind.handles
  have hsplit' := m'.pages.total_filterKeys (fun ref => ref.space == s) fun page => page.kind.handles
  change m'.pages.total _ + _ = m.pages.total _ + _
  rw [← hsplit, ← hsplit', hothers]
  unfold lentTo
  ac_rfl

theorem lentTo_empty (empty : ∀ vpn, m.pages.find? ⟨s, vpn⟩ = none) : m.lentTo s = 0 := by
  have hnone : m.lentTo s = (∅ : Table PageRef Page).total fun page => page.kind.handles := by
    refine Table.total_congr fun ref => ?_
    rw [Table.find?_filterKeys]
    split
    · next hs =>
        obtain rfl := beq_iff_eq.1 hs
        rw [empty ref.vpn]
        rfl
    · rfl
  exact hnone

end Machine

end DemandPaging
