import DemandPaging.Proofs.Sights
import DemandPaging.Proofs.Runs

/-!
Mapped files. What users write to the pages of a region is what they read there, and it is what the
file holds once the region is gone; what lies beyond the region or the end of the file never gets
there.
-/

namespace DemandPaging

open DemandPaging.Core
open Function (update)

def Machine.places (m : Machine) : Places :=
  fun ref i => (m.pages.find? ref).bind fun page => page.kind.place i

/-- Requests of runs in which files come into memory by being mapped, no byte of a file more than
once, and nobody else changes files or entries. -/
def Operation.MapsOnce (m : Machine) : Operation → Prop
  | declare _ _ _ (.file _ _ _) _ | insert _ _ _ (.file _ _ _)
  | insert _ _ _ (.uninit (.file _ _ _) _) | fork _ _ _ | setDirty _ _ _ | dropMapping _ _
  | setInstalls _ _ | configureFile _ _ | locked _ _ _ => False
  | map _ _ length _ id offset =>
      ∀ ref i k, m.places ref i = some (id, k) → k < offset ∨ offset + length ≤ k
  | _ => True

def Operation.Unseen : Operation → Answer → Prop
  | read _ _ _ _, _ | write _ _ _ _, _ | fork _ _ _, _ | teardown _ _, _ | exit _ _, _ => False
  | map _ _ _ _ _ _, .mapped (.ok _) | unmap _ _, .accepted (.ok _) => False
  | remove _ _, .flag true => False
  | _, _ => True

theorem Operation.Looks.unseen {op : Operation} {a : Answer} (h : op.Looks) : op.Unseen a := by
  cases op with
  | newSpace | find | pageType | check | size | mappings | file | duplicateBacking | stats => trivial
  | _ => exact h.elim

namespace Sight

/-- Byte number `j` of the region is byte number `offset + j` of the file, if there is such a byte;
the rest of the last page shows nothing. -/
def map (g : Sight) (s : SpaceId) (va : VirtAddr) (length : Nat) (id : FileId) (offset : Nat) :
    Sight where
  places ref i :=
    if ref.space = s ∧ va.val ≤ ref.vpn.val * pageSize ∧
        ref.vpn.val * pageSize < va.val + length then
      let j := ref.vpn.val * pageSize - va.val + i
      if i < pageSize ∧ j < length ∧ offset + j < (g.view id).size then some (id, offset + j)
      else none
    else g.places ref i
  view := g.view
  regions := g.regions.insert ⟨s, va.vpnFloor⟩ ((length + (pageSize - 1)) / pageSize)

def hide (g : Sight) (gone : PageRef → Prop) [DecidablePred gone] : Sight :=
  { g with places := fun ref => if gone ref then fun _ => none else g.places ref }

/-- How requests are served in the eyes of those who see the files through pages. -/
inductive Serves (g : Sight) : Operation → Answer → Sight → Prop where
  | unseen {op : Operation} {a : Answer} (unseen : op.Unseen a) : Serves g op a g
  | read {s : SpaceId} {va sp : VirtAddr} {length : Nat} {result : Option (Array UInt8)}
      (shown : ∀ bytes, result = some bytes → bytes.size = length ∧
        ∀ x ∈ ByteAt.along s va bytes.toList, g.Shows x) :
      Serves g (.read s va length sp) (.bytes result) g
  | wrote {s : SpaceId} {va sp : VirtAddr} {bytes : Array UInt8} {done : Bool} {taken : List UInt8}
      (some_of : taken <+: bytes.toList) (all_of : done = true → taken = bytes.toList) :
      Serves g (.write s va bytes sp) (.flag done) (g.storeAll (ByteAt.along s va taken))
  | mapped {s : SpaceId} {va : VirtAddr} {length : Nat} {writable : Bool} {id : FileId}
      {offset : Nat} (aligned : va.val = va.vpnFloor.val * pageSize) (positive : 0 < length)
      (user : va.val + length ≤ userSpaceEnd) :
      Serves g (.map s va length writable id offset) (.mapped (.ok va)) (g.map s va length id offset)
  | removed {s : SpaceId} {va : VirtAddr} :
      Serves g (.remove s va) (.flag true) (g.hide (· = ⟨s, va.vpnFloor⟩))
  | unmapped {s : SpaceId} {va : VirtAddr} {pages : Nat}
      (found : g.regions.find? ⟨s, va.vpnFloor⟩ = some pages) :
      Serves g (.unmap s va) (.accepted (.ok ())) { g.hide fun ref => ref.space = s ∧
        va.vpnFloor.val ≤ ref.vpn.val ∧ ref.vpn.val < va.vpnFloor.val + pages with
          regions := g.regions.erase ⟨s, va.vpnFloor⟩ }
  | cleared {op : Operation} {a : Answer} {s : SpaceId} {order : Traversal}
      {regions : Table PageRef Nat} (clears : op = .teardown s order ∨ op = .exit s order)
      (left : regions = g.regions ∨ regions = g.regions.filterKeys fun ref => ref.space != s) :
      Serves g op a { g.hide (·.space = s) with regions }

inductive Follows (g : Sight) : List Exchange → Sight → Prop where
  | start : Follows g [] g
  | next {g₁ g' : Sight} {log : List Exchange} {op : Operation} {a : Answer}
      (before : Follows g log g₁) (serves : g₁.Serves op a g') : Follows g (log ++ [(op, a)]) g'

def Bounded (g : Sight) : Prop :=
  ∀ ref n, g.regions.find? ref = some n → (ref.vpn.val + n) * pageSize ≤ wordBound

variable {g g' : Sight} {op : Operation} {a : Answer} {ds : List Deed} {ref : PageRef}

theorem eq_hide {gone : PageRef → Prop} [DecidablePred gone] (view : g'.view = g.view)
    (hidden : ∀ ref, gone ref → g'.places ref = fun _ => none)
    (kept : ∀ ref, ¬ gone ref → g'.places ref = g.places ref) :
    g' = { g.hide gone with regions := g'.regions } := by
  refine Sight.ext ?_ view rfl
  funext ref
  simp only [hide]
  split
  · next h => exact hidden ref h
  · next h => exact kept ref h

theorem seeAll_quiet (h : ∀ d ∈ ds, ∀ g, d.see g = g) : Deed.seeAll g ds = g := by
  induction ds generalizing g with
  | nil => rfl
  | cons d ds ih =>
      rw [Deed.seeAll, List.foldl_cons, h d List.mem_cons_self]
      exact ih fun e he => h e (List.mem_cons_of_mem d he)

theorem seeAll_stores (h : ∀ d ∈ ds, ∀ g, d.see g = g.storeAll d.stores) :
    Deed.seeAll g ds = g.storeAll (Deed.allStores ds) := by
  induction ds generalizing g with
  | nil => rfl
  | cons d ds ih =>
      have hrest := @ih (d.see g) fun e he => h e (List.mem_cons_of_mem d he)
      have hall : Deed.allStores (d :: ds) = d.stores ++ Deed.allStores ds := List.flatMap_cons
      rw [hall, storeAll, List.foldl_append]
      refine hrest.trans ?_
      rw [h d List.mem_cons_self]
      rfl

theorem see_view {d : Deed} (h : ¬ d.IsWrite) : (d.see g).view = g.view := by
  cases d with
  | add ref page =>
      simp only [Deed.see]
      split <;> rfl
  | write => exact (h trivial).elim
  | _ => rfl

theorem seeAll_view (h : ∀ d ∈ ds, ¬ d.IsWrite) : (Deed.seeAll g ds).view = g.view := by
  induction ds generalizing g with
  | nil => rfl
  | cons d ds ih =>
      exact (ih fun e he => h e (List.mem_cons_of_mem d he)).trans (see_view (h d List.mem_cons_self))

theorem see_apart {d : Deed} (h : d.target ≠ some ref) : (d.see g).places ref = g.places ref := by
  cases d with
  | add r page =>
      simp only [Deed.see]
      split
      · exact Function.update_of_ne (fun he => h (congrArg some he.symm)) _ _
      · rfl
  | write => exact congrFun (storeAll_places _ _) ref
  | drop r => exact Function.update_of_ne (fun he => h (congrArg some he.symm)) _ _
  | _ => rfl

theorem seeAll_apart (h : ∀ d ∈ ds, d.target ≠ some ref) :
    (Deed.seeAll g ds).places ref = g.places ref := by
  induction ds generalizing g with
  | nil => rfl
  | cons d ds ih =>
      exact (ih fun e he => h e (List.mem_cons_of_mem d he)).trans (see_apart (h d List.mem_cons_self))

theorem ShowsAll.quiet (h : g.ShowsAll ds) (quiet : ∀ d ∈ ds, ∀ g, d.see g = g) :
    ∀ x ∈ Deed.allLoads ds, g.Shows x := by
  induction ds with
  | nil => exact nofun
  | cons d ds ih =>
      intro x hx
      obtain ⟨hd, hrest⟩ := h
      rw [quiet d List.mem_cons_self] at hrest
      rw [Deed.allLoads, List.flatMap_cons] at hx
      rcases List.mem_append.1 hx with hx | hx
      · exact hd x hx
      · exact ih hrest (fun e he => quiet e (List.mem_cons_of_mem d he)) x hx

theorem Serves.size (h : g.Serves op a g') (id : FileId) : (g'.view id).size = (g.view id).size := by
  cases h with
  | wrote => exact size_storeAll _ _ id
  | _ => rfl

theorem Follows.size {log : List Exchange} (h : g.Follows log g') (id : FileId) :
    (g'.view id).size = (g.view id).size := by
  induction h with
  | start => rfl
  | next _ serves ih => exact (serves.size id).trans ih

theorem Serves.bounded (h : g.Serves op a g') (hb : g.Bounded) : g'.Bounded := by
  cases h with
  | wrote =>
      intro ref n hn
      rw [storeAll_regions] at hn
      exact hb ref n hn
  | @mapped s va length _ _ _ aligned positive user =>
      intro ref n hn
      replace hn := (Table.find?_insert _ _ _ _).symm.trans hn
      split at hn
      · next href =>
          subst href
          cases hn
          simp only [pageSize, wordBound, userSpaceEnd] at *
          omega
      · exact hb ref n hn
  | unmapped =>
      intro ref n hn
      replace hn := (Table.find?_erase _ _ _).symm.trans hn
      split at hn
      · cases hn
      · exact hb ref n hn
  | cleared _ left =>
      rcases left with rfl | rfl
      · exact hb
      · intro ref n hn
        replace hn := (Table.find?_filterKeys _ _ _).symm.trans hn
        split at hn
        · exact hb ref n hn
        · cases hn
  | _ => exact hb

end Sight

namespace Deed

variable {g : Sight} {d : Deed} {ref : PageRef} {s : SpaceId}

theorem Faults.see (h : d.Faults ref) : d.see g = g := by
  rcases h with (h | rfl) | rfl
  · exact Sight.see_settles h
  · rfl
  · rfl

theorem Settles.opens (h : d.Settles ref) : d.Opens g := by
  cases d with
  | make | fail => trivial
  | _ => exact h.elim

theorem Faults.opens (h : d.Faults ref) (kept : ∀ r, d ≠ .lose r) : d.Opens g := by
  rcases h with (h | rfl) | rfl
  · exact h.opens
  · exact (kept ref rfl).elim
  · exact nofun

theorem Reads.see {P : VirtAddr → Prop} (h : d.Reads s P) : d.see g = g := by
  obtain ⟨va, -, hf | ⟨bytes, rfl⟩⟩ := h
  · exact hf.see
  · rfl

theorem Reads.opens {P : VirtAddr → Prop} (h : d.Reads s P) (kept : ∀ r, d ≠ .lose r) :
    d.Opens g := by
  obtain ⟨va, -, hf | ⟨bytes, rfl⟩⟩ := h
  · exact hf.opens kept
  · trivial

theorem Writes.see {P : VirtAddr → Prop} (h : d.Writes s P) : d.see g = g.storeAll d.stores := by
  obtain ⟨va, -, hf | ⟨bytes, rfl⟩⟩ := h
  · rw [hf.see, hf.silent.2]
    rfl
  · rfl

theorem Writes.opens {P : VirtAddr → Prop} (h : d.Writes s P) (kept : ∀ r, d ≠ .lose r) :
    d.Opens g := by
  obtain ⟨va, -, hf | ⟨bytes, rfl⟩⟩ := h
  · exact hf.opens kept
  · trivial

theorem Clears.opens {regions : Table PageRef Nat} (h : d.Clears regions s) : d.Opens g := by
  rcases h with ⟨vpn, rfl⟩ | rfl <;> trivial

end Deed

namespace MapRequest

variable {r : MapRequest} {g : Sight} {count i : Nat}

theorem adds_opens (length : r.fileLength = (g.view r.file).size)
    (unseen : ∀ j, i ≤ j → ∀ k < (r.backing j).readBytes, ∀ ref l,
      g.places ref l ≠ some (r.file, r.offset + j * pageSize + k)) :
    g.OpensAll (r.adds count i) := by
  induction count generalizing g i with
  | zero => trivial
  | succ count ih =>
      refine ⟨fun backing hb => ?_, ih ?_ fun j hj k hk ref l hplace => ?_⟩
      · cases hb
        refine ⟨rfl, fun k hk => ⟨?_, unseen i (Nat.le_refl i) k hk⟩⟩
        have hend : r.offset + i * pageSize + k < r.fileLength := by
          simp only [MapRequest.backing] at hk
          omega
        rwa [length] at hend
      · exact length.trans (congrArg (fun v => Array.size (v r.file)) (Sight.see_view id).symm)
      · simp only [Deed.see, MapRequest.page, Page.fresh, PageKind.window] at hplace
        by_cases href : ref = r.ref i
        · subst href
          rw [Function.update_self] at hplace
          obtain ⟨hl, hp⟩ := FileBacking.place_eq_some.1 hplace
          have hl' := Nat.lt_of_lt_of_le hl (r.backing i).readBytes_le
          have hk' := Nat.lt_of_lt_of_le hk (r.backing j).readBytes_le
          injection hp with _ hoff
          simp only [MapRequest.backing, pageSize] at hoff hl' hk'
          omega
        · rw [Function.update_of_ne href] at hplace
          exact unseen j (by omega) k hk ref l hplace

theorem adds_places (inj : ∀ a b, a < i + count → b < i + count → r.ref a = r.ref b → a = b) {j : Nat}
    (hi : i ≤ j) (hj : j < i + count) :
    (Deed.seeAll g (r.adds count i)).places (r.ref j) = (r.backing j).place := by
  induction count generalizing g i with
  | zero => omega
  | succ count ih =>
      rw [adds, Deed.seeAll, List.foldl_cons]
      by_cases hij : j = i
      · subst hij
        refine (Sight.seeAll_apart fun d hd he => ?_).trans (Function.update_self _ _ _)
        obtain ⟨l, hl, hl', rfl⟩ := mem_adds.1 hd
        have heq := inj l j (by omega) hj (Option.some.inj he)
        omega
      · exact ih (fun a b ha hb => inj a b (by omega) (by omega)) (by omega) (by omega)

end MapRequest

section Windowless

variable {m : Machine} {g : Sight} {ref : PageRef} {page : Page} {s : SpaceId} {va : VirtAddr}
  {writable : Bool}

theorem Sight.see_windowless (window : page.kind.window = none) : (Deed.add ref page).see g = g := by
  simp only [Deed.see, window]

theorem Sight.opens_windowless (window : page.kind.window = none) : (Deed.add ref page).Opens g := by
  intro backing shows
  rw [window] at shows
  cases shows

theorem Operation.MapsOnce.declares {target : TargetRequest} {init : Option InitializerRequest}
    {t : PageTarget} (h : (declare s va writable target init).MapsOnce m) (names : target.Names t)
    (i : Option Initializer) : (PageKind.uninit t i).window = none := by
  cases target with
  | anon =>
      cases names
      rfl
  | file => exact h.elim

theorem Operation.MapsOnce.inserts {c : Core} {request : KindRequest} {kind : PageKind}
    (h : (insert s va writable request).MapsOnce m) (names : request.Names c kind) :
    kind.window = none := by
  cases request with
  | anon =>
      cases names
      rfl
  | file => exact h.elim
  | uninit target _ =>
      cases target with
      | anon =>
          obtain ⟨t, i, rfl, ht, -⟩ := names
          cases ht
          rfl
      | file => exact h.elim

end Windowless

namespace Operation.Does

variable {m : Machine} {c c' : Core} {op : Operation} {a : Answer} {ds : List Deed} {g : Sight}

theorem opens (h : Does c c' op a ds) (hop : op.MapsOnce m) (places : m.places = g.places)
    (size : ∀ id, (c.files id).data.size = (g.view id).size) (whole : Whole ds) :
    g.OpensAll ds := by
  have kept {d : Deed} (hd : d ∈ ds) (r : PageRef) : d ≠ .lose r := by
    rintro rfl
    exact whole.1 r hd
  cases h with
  | looked | notDeclared | notInserted | notRemoved => trivial
  | declared target_of => exact ⟨Sight.opens_windowless (hop.declares target_of _), trivial⟩
  | inserted kind_of => exact ⟨Sight.opens_windowless (hop.inserts kind_of), trivial⟩
  | claimed settles => exact Sight.opensAll_of fun d hd _ => (settles d hd).opens
  | removed => exact ⟨trivial, trivial⟩
  | @mapped s va length writable id offset _ _ serves =>
      have hadds (n : Nat) : g.OpensAll (MapRequest.adds ⟨s, va.vpnFloor, length, writable, id,
          (c.files id).data.size, offset⟩ n 0) := by
        refine MapRequest.adds_opens (size id) fun j _ k hk ref l hplace => ?_
        rw [← places] at hplace
        have hapart : offset + j * pageSize + k < offset ∨
            offset + length ≤ offset + j * pageSize + k := hop ref l _ hplace
        simp only [MapRequest.backing] at hk
        omega
      cases serves with
      | mapped => exact Sight.opensAll_append.2 ⟨hadds _, trivial, trivial⟩
      | refused _ _ undone =>
          refine Sight.opensAll_append.2 ⟨hadds _, Sight.opensAll_of fun d hd _ => ?_⟩
          obtain ⟨j, -, rfl⟩ := undone d hd
          trivial
  | unmapped unmaps =>
      cases unmaps with
      | unmapped _ _ drops_of =>
          refine ⟨trivial, Sight.opensAll_of fun d hd _ => ?_⟩
          obtain ⟨j, -, rfl⟩ := drops_of d hd
          trivial
      | refused => trivial
  | faulted faults => exact Sight.opensAll_of fun d hd _ => (faults d hd).opens (kept hd)
  | read reads => exact Sight.opensAll_of fun d hd _ => (reads d hd).opens (kept hd)
  | wrote writes => exact Sight.opensAll_of fun d hd _ => (writes d hd).opens (kept hd)
  | forked | notForked => exact hop.elim
  | tornDown clears | exited clears =>
      exact Sight.opensAll_of fun d hd _ => (clears d hd).opens

theorem sees_mapped {r : MapRequest} {va : VirtAddr} {pages : Nat} (valid : r.Valid pages)
    (aligned : va.val = r.start.val * pageSize) (floor : va.vpnFloor = r.start)
    (length : r.fileLength = (g.view r.file).size) :
    Deed.seeAll g (r.adds pages 0 ++ [.chart (g.regions.insert ⟨r.space, r.start⟩ pages)]) =
      g.map r.space va r.length r.file r.offset := by
  have hquiet : ∀ d ∈ r.adds pages 0, ¬ d.IsWrite := by
    intro d hd
    obtain ⟨j, -, -, rfl⟩ := MapRequest.mem_adds.1 hd
    exact id
  rw [Sight.seeAll_append]
  refine Sight.ext ?_ (Sight.seeAll_view hquiet) ?_
  · funext ref i
    change (Deed.seeAll g (r.adds pages 0)).places ref i = _
    simp only [Sight.map]
    split
    · next hin =>
        obtain ⟨hspace, hle, hlt⟩ := hin
        obtain ⟨j, hj, hvpn⟩ : ∃ j < pages, ref.vpn.val = r.start.val + j := by
          rw [valid.count]
          simp only [pageSize] at aligned hle hlt ⊢
          exact ⟨ref.vpn.val - r.start.val, by omega, by omega⟩
        have href : ref = r.ref j := by
          rw [valid.ref_eq hj, ← hspace, ← hvpn]
        have hinj : ∀ a b, a < 0 + pages → b < 0 + pages → r.ref a = r.ref b → a = b := by
          intro a b ha hb heq
          rw [valid.ref_eq (by omega), valid.ref_eq (by omega), PageRef.mk.injEq,
            PageNum.mk.injEq] at heq
          omega
        rw [href, MapRequest.adds_places hinj (Nat.zero_le j) (by omega), ← href, hvpn]
        have hoff : (r.start.val + j) * pageSize - va.val + i = j * pageSize + i := by
          rw [aligned, Nat.add_mul]
          omega
        rw [hoff, ← length]
        by_cases hi : i < (r.backing j).readBytes
        · rw [FileBacking.place, if_pos hi]
          simp only [MapRequest.backing] at hi ⊢
          rw [if_pos (by omega), Nat.add_assoc]
        · rw [FileBacking.place, if_neg hi]
          simp only [MapRequest.backing] at hi
          rw [if_neg (by omega)]
    · next hout =>
        refine congrFun (Sight.seeAll_apart fun d hd he => hout ?_) i
        obtain ⟨j, -, hj, rfl⟩ := MapRequest.mem_adds.1 hd
        have href : r.ref j = ref := Option.some.inj he
        rw [valid.ref_eq (by omega)] at href
        subst href
        have hcount := valid.count
        have hpos := valid.positive
        simp only [pageSize] at aligned hcount ⊢
        exact ⟨trivial, by omega, by omega⟩
  · simp only [Deed.seeAll, List.foldl_cons, List.foldl_nil, Deed.see, Sight.map, floor, valid.count]

theorem sees_refused {r : MapRequest} {n : Nat} {drops : List Deed} (agrees : g.Agrees c.looks c.files)
    (agrees' : (Deed.seeAll g (r.adds n 0 ++ drops)).Agrees c'.looks c'.files)
    (vacant : ∀ j < n, c.pages.find? (r.ref j) = none)
    (undone : ∀ d ∈ drops, ∃ j < n, d = .drop (r.ref j))
    (gone : ∀ j < n, c'.pages.find? (r.ref j) = none) :
    Deed.seeAll g (r.adds n 0 ++ drops) = g := by
  have deed {d : Deed} (hd : d ∈ r.adds n 0 ++ drops) : ∃ j < n, d.target = some (r.ref j) ∧
      ¬ d.IsWrite ∧ ∀ t, d ≠ .chart t := by
    rcases List.mem_append.1 hd with hd | hd
    · obtain ⟨j, -, hj, rfl⟩ := MapRequest.mem_adds.1 hd
      exact ⟨j, by omega, rfl, id, nofun⟩
    · obtain ⟨j, hj, rfl⟩ := undone d hd
      exact ⟨j, hj, rfl, id, nofun⟩
  refine Sight.ext ?_ (Sight.seeAll_view fun d hd => ?_) (Sight.seeAll_regions fun t ht => ?_)
  · funext ref
    by_cases href : ∃ j < n, r.ref j = ref
    · obtain ⟨j, hj, rfl⟩ := href
      rw [agrees'.place_vacant (looks_vacant (gone j hj)),
        agrees.place_vacant (looks_vacant (vacant j hj))]
    · refine Sight.seeAll_apart fun d hd he => href ?_
      obtain ⟨j, hj, htarget, -⟩ := deed hd
      rw [htarget] at he
      exact ⟨j, hj, Option.some.inj he⟩
  · obtain ⟨j, -, -, hquiet, -⟩ := deed hd
    exact hquiet
  · obtain ⟨j, -, -, -, hchart⟩ := deed ht
    exact hchart t rfl

theorem sees_unmapped {s : SpaceId} {va : VirtAddr} {pages : Nat} {drops : List Deed}
    {regions : Table PageRef Nat} (bounded : (va.vpnFloor.val + pages) * pageSize ≤ wordBound)
    (agrees' : (Deed.seeAll g (.chart regions :: drops)).Agrees c'.looks c'.files)
    (drops_of : ∀ d ∈ drops, ∃ j < pages, d = .drop (PageRef.within s va.vpnFloor j))
    (gone : ∀ j < pages, c'.pages.find? (PageRef.within s va.vpnFloor j) = none) :
    Deed.seeAll g (.chart regions :: drops) = { g.hide fun ref => ref.space = s ∧
      va.vpnFloor.val ≤ ref.vpn.val ∧ ref.vpn.val < va.vpnFloor.val + pages with regions } := by
  have within {j : Nat} (hj : j < pages) :
      PageRef.within s va.vpnFloor j = ⟨s, ⟨va.vpnFloor.val + j⟩⟩ := by
    refine PageRef.within_eq ?_
    simp only [pageSize, wordBound] at *
    omega
  have hregions : (Deed.seeAll g (.chart regions :: drops)).regions = regions := by
    refine Sight.seeAll_regions (g := { g with regions }) fun t ht => ?_
    obtain ⟨j, -, hj⟩ := drops_of _ ht
    cases hj
  refine (Sight.eq_hide ?_ (fun ref hgone => ?_) fun ref hkept => ?_).trans (by rw [hregions])
  · refine Sight.seeAll_view fun d hd => ?_
    rcases List.mem_cons.1 hd with rfl | hd
    · exact id
    · obtain ⟨j, -, rfl⟩ := drops_of d hd
      exact id
  · obtain ⟨hspace, hle, hlt⟩ := hgone
    have hj : ref.vpn.val - va.vpnFloor.val < pages := by omega
    have href : PageRef.within s va.vpnFloor (ref.vpn.val - va.vpnFloor.val) = ref := by
      rw [within hj, ← hspace, Nat.add_sub_cancel' hle]
    refine agrees'.place_vacant (looks_vacant ?_)
    rw [← href]
    exact gone _ hj
  · refine Sight.seeAll_apart fun d hd he => hkept ?_
    rcases List.mem_cons.1 hd with rfl | hd
    · cases he
    · obtain ⟨j, hj, rfl⟩ := drops_of d hd
      have href : PageRef.within s va.vpnFloor j = ref := Option.some.inj he
      rw [within hj] at href
      subst href
      exact ⟨rfl, Nat.le_add_right _ _, Nat.add_lt_add_left hj _⟩

theorem sees_cleared {s : SpaceId} {regions : Table PageRef Nat}
    (agrees' : (Deed.seeAll g ds).Agrees c'.looks c'.files)
    (clears : ∀ d ∈ ds, d.Clears regions s) (gone : ∀ vpn, c'.pages.find? ⟨s, vpn⟩ = none) :
    Deed.seeAll g ds = { g.hide (·.space = s) with regions := (Deed.seeAll g ds).regions } ∧
      ((Deed.seeAll g ds).regions = g.regions ∨
        (Deed.seeAll g ds).regions = regions.filterKeys fun ref => ref.space != s) := by
  constructor
  · refine Sight.eq_hide (Sight.seeAll_view fun d hd => ?_) (fun ref hgone => ?_) fun ref hkept => ?_
    · rcases clears d hd with ⟨vpn, rfl⟩ | rfl <;> exact id
    · subst hgone
      exact agrees'.place_vacant (looks_vacant (gone ref.vpn))
    · refine Sight.seeAll_apart fun d hd he => ?_
      rcases clears d hd with ⟨vpn, rfl⟩ | rfl
      · have href : ⟨s, vpn⟩ = ref := Option.some.inj he
        subst href
        exact hkept rfl
      · exact nomatch he
  · clear agrees' gone
    induction ds generalizing g with
    | nil => exact .inl rfl
    | cons d ds ih =>
        have hrest := @ih (d.see g) fun e he => clears e (List.mem_cons_of_mem d he)
        rcases hrest with hrest | hrest
        · rcases clears d List.mem_cons_self with ⟨vpn, rfl⟩ | rfl
          · exact .inl hrest
          · exact .inr hrest
        · exact .inr hrest

theorem sees_map {s : SpaceId} {va : VirtAddr} {length : Nat} {writable : Bool} {id : FileId}
    {offset : Nat} {result : Except Errno VirtAddr}
    (h : MapRequest.Serves ⟨s, va.vpnFloor, length, writable, id, (c.files id).data.size, offset⟩ va
      c c' result ds)
    (regions : g.regions = c.regions) (agrees : g.Agrees c.looks c.files)
    (agrees' : (Deed.seeAll g ds).Agrees c'.looks c'.files) :
    g.Serves (.map s va length writable id offset) (.mapped result) (Deed.seeAll g ds) := by
  cases h with
  | mapped valid aligned =>
      rw [← regions, sees_mapped valid aligned rfl (agrees.size _)]
      refine .mapped aligned valid.positive ?_
      rw [aligned]
      exact valid.user
  | refused vacant _ undone gone =>
      rw [sees_refused agrees agrees' vacant undone gone]
      exact .unseen trivial

theorem sees_unmap {s : SpaceId} {va : VirtAddr} {result : Except Errno Unit}
    (h : Core.Unmaps s va.vpnFloor c c' result ds) (bounded : g.Bounded)
    (regions : g.regions = c.regions) (agrees' : (Deed.seeAll g ds).Agrees c'.looks c'.files) :
    g.Serves (.unmap s va) (.accepted result) (Deed.seeAll g ds) := by
  cases h with
  | unmapped found _ drops_of gone =>
      rw [← regions] at found agrees' ⊢
      have hbounded := bounded _ _ found
      rw [sees_unmapped hbounded agrees' drops_of gone]
      exact .unmapped found
  | refused => exact .unseen trivial

theorem sees_clear {s : SpaceId} {order : Traversal}
    (clears_space : op = .teardown s order ∨ op = .exit s order) (regions : g.regions = c.regions)
    (agrees' : (Deed.seeAll g ds).Agrees c'.looks c'.files)
    (clears : ∀ d ∈ ds, d.Clears c.regions s) (gone : ∀ vpn, c'.pages.find? ⟨s, vpn⟩ = none) :
    g.Serves op a (Deed.seeAll g ds) := by
  obtain ⟨hsees, hleft⟩ := sees_cleared agrees' clears gone
  rw [← regions] at hleft
  rw [hsees]
  exact .cleared clears_space hleft

theorem sees_removed (g : Sight) (ref : PageRef) :
    Deed.seeAll g [.drop ref] = g.hide (· = ref) :=
  Sight.eq_hide rfl (fun _ hr => hr ▸ Function.update_self _ _ _)
    fun _ hr => Function.update_of_ne hr _ _

theorem sees (h : Does c c' op a ds) (hop : op.MapsOnce m) (bounded : g.Bounded)
    (regions : g.regions = c.regions) (agrees : g.Agrees c.looks c.files)
    (agrees' : (Deed.seeAll g ds).Agrees c'.looks c'.files) (shows : g.ShowsAll ds) :
    g.Serves op a (Deed.seeAll g ds) := by
  have unseen (quiet : ∀ d ∈ ds, ∀ g, d.see g = g) (unseen : op.Unseen a) :
      g.Serves op a (Deed.seeAll g ds) := by
    rw [Sight.seeAll_quiet quiet]
    exact .unseen unseen
  cases h with
  | looked looks => exact .unseen looks.unseen
  | declared target_of =>
      exact unseen (List.forall_mem_singleton.2 fun _ => Sight.see_windowless (hop.declares target_of _))
        trivial
  | inserted kind_of =>
      exact unseen (List.forall_mem_singleton.2 fun _ => Sight.see_windowless (hop.inserts kind_of))
        trivial
  | notDeclared | notInserted | notRemoved => exact .unseen trivial
  | claimed settles => exact unseen (fun d hd _ => Sight.see_settles (settles d hd)) trivial
  | removed =>
      rw [sees_removed]
      exact .removed
  | mapped serves => exact sees_map serves regions agrees agrees'
  | unmapped unmaps => exact sees_unmap unmaps bounded regions agrees'
  | faulted faults => exact unseen (fun d hd _ => (faults d hd).see) trivial
  | read reads loads got =>
      have hquiet : ∀ d ∈ ds, ∀ g, d.see g = g := fun d hd _ => (reads d hd).see
      rw [Sight.seeAll_quiet hquiet]
      refine .read fun bytes hbytes => ?_
      obtain ⟨rfl, hsize⟩ := got bytes hbytes
      rw [← loads]
      exact ⟨hsize, shows.quiet hquiet⟩
  | wrote writes stores some_of all_of =>
      rw [Sight.seeAll_stores fun d hd _ => (writes d hd).see, stores]
      exact .wrote some_of all_of
  | forked | notForked => exact hop.elim
  | tornDown clears gone => exact sees_clear (.inl rfl) regions agrees' clears gone
  | exited clears gone => exact sees_clear (.inr rfl) regions agrees' clears gone

end Operation.Does

structure Machine.Displays (m : Machine) (g : Sight) : Prop extends m.Settled where
  calm : m.core.Calm
  agrees : g.Agrees m.core.looks m.core.files
  regions : g.regions = m.core.regions
  bounded : g.Bounded

def Machine.unmapped (m : Machine) : Sight := ⟨fun _ _ => none, fun id => (m.file id).data, ∅⟩

variable {m m' : Machine} {g : Sight} {log new : List Exchange}

theorem Machine.looks_places (m : Machine) : m.core.looks.places = m.places := by
  funext ref i
  simp only [Looks.places, Core.looks, Machine.places, Option.bind_map]
  rfl

theorem Operation.MapsOnce.regular {op : Operation} (h : op.MapsOnce m) : op.Regular := by
  cases op with
  | setDirty | dropMapping | setInstalls | configureFile | locked => exact h.elim
  | _ => trivial

theorem Machine.Displays.served {op : Operation} {a : Answer} {held : List PageRef}
    (h : m.Displays g) (hop : op.MapsOnce m) (answered : op.perform { m with held } = .ok a m') :
    ∃ g', g.Serves op a g' ∧ m'.Displays g' := by
  obtain ⟨⟨hs, hg⟩, hc, hagrees, hregions, hbounded⟩ := h
  obtain ⟨ds, hsteps, hdoes⟩ := Operation.perform_held hop.regular hs answered
  have hplaces : m.places = g.places := by rw [hagrees.places, m.looks_places]
  have hopens := hdoes.opens hop hplaces hagrees.size (hsteps.whole hc)
  obtain ⟨hagrees', hshows⟩ := hsteps.agrees hs hg hc hagrees hopens
  have hserves := hdoes.sees hop hbounded hregions hagrees hagrees' hshows
  exact ⟨_, hserves, ⟨hsteps.sound hs, hsteps.guarded_of_calm hs hc hg⟩, hsteps.calm hc, hagrees',
    hsteps.regions_seen hregions, hserves.bounded hbounded⟩

theorem Machine.fresh_files {frames : Nat} {sectors : Option Nat} {files : List File}
    {allocator : Allocator} (complete : ∀ file ∈ files, file.face.Complete) (id : FileId) :
    ((Machine.fresh frames sectors files allocator).file id).face.Complete := by
  have stored {rows : List (File × Nat)} {t : Table FileId File}
      (ht : ∀ id file, t.find? id = some file → file.face.Complete)
      (hrows : ∀ row ∈ rows, row.1.face.Complete) : ∀ id file,
      (rows.foldl (fun t row => t.insert row.2 row.1) t).find? id = some file →
        file.face.Complete := by
    induction rows generalizing t with
    | nil => exact ht
    | cons row rows ih =>
        refine ih (fun id file hfound => ?_) fun r hr => hrows r (List.mem_cons_of_mem row hr)
        rcases Table.find?_insert_eq_some.1 hfound with ⟨-, rfl⟩ | ⟨-, hfound⟩
        · exact hrows row List.mem_cons_self
        · exact ht id file hfound
  unfold Machine.file
  cases hfound : (Machine.fresh frames sectors files allocator).files.find? id with
  | none => exact ⟨fun _ _ _ => rfl, fun _ _ _ => rfl, nofun⟩
  | some file =>
      refine stored (fun i f hf => ?_) (fun row hrow => ?_) id file hfound
      · rw [Table.find?_empty] at hf
        cases hf
      · exact complete row.1 (List.fst_mem_of_mem_zipIdx hrow)

theorem Machine.fresh_displays {frames : Nat} {sectors : Option Nat} {files : List File}
    {allocator : Allocator} (complete : ∀ file ∈ files, file.face.Complete) :
    (Machine.fresh frames sectors files allocator).Displays
      (Machine.fresh frames sectors files allocator).unmapped := by
  refine ⟨fresh_settled frames sectors files allocator, fun _ _ => rfl, ?_, rfl, nofun⟩
  exact ⟨rfl, fresh_files complete, fun _ => rfl, nofun, nofun, nofun, nofun, nofun, nofun,
    fun _ _ _ => rfl⟩

/-- In every run in which each byte of a file is mapped once at a time, users of the mapped pages
read what the file held or what they wrote last; and wherever no page shows a file, be it that its
region is gone or that there never was one, the file holds just that. Its length never changes. -/
theorem mapped_files_coherent {frames : Nat} {sectors : Option Nat} {files : List File}
    {allocator : Allocator} (complete : ∀ file ∈ files, file.face.Complete)
    (run : Run Operation.MapsOnce (.fresh frames sectors files allocator) log m) :
    ∃ g, (Machine.fresh frames sectors files allocator).unmapped.Follows log g ∧ g.places = m.places ∧
      ∀ id, (m.file id).data.size = ((Machine.fresh frames sectors files allocator).file id).data.size ∧
        ∀ k, (∀ ref i, g.places ref i ≠ some (id, k)) →
          (m.file id).data[k]? = (g.view id)[k]? := by
  have displayed : ∃ g, (Machine.fresh frames sectors files allocator).unmapped.Follows log g ∧
      m.Displays g := by
    induction run with
    | nil => exact ⟨_, .start, Machine.fresh_displays complete⟩
    | turn run turn all ih =>
        obtain ⟨g, hfollows, hdisplays⟩ := ih
        cases turn with
        | served held whole answered =>
            obtain ⟨g', hserves, hdisplays'⟩ :=
              hdisplays.served (all _ List.mem_cons_self) answered
            exact ⟨g', hfollows.next hserves, hdisplays'⟩
        | undone => exact (all _ List.mem_cons_self).elim
  obtain ⟨g, hfollows, hdisplays⟩ := displayed
  refine ⟨g, hfollows, hdisplays.agrees.places.trans m.looks_places, fun id => ⟨?_, fun k hk => ?_⟩⟩
  · exact (hdisplays.agrees.size id).trans (hfollows.size id)
  · exact hdisplays.agrees.disk id k fun ref _ _ _ i => hk ref i

/-- Four bytes are written to the page of a file with three. The page goes out of memory and comes
back before its region is unmapped. -/
theorem mapped_files_coherent_after_unmap : ∃ log m g,
    (∀ file ∈ [File.ofData #[1, 2, 3] false], file.face.Complete) ∧
      Run Operation.MapsOnce (.fresh 1 (some 16) [.ofData #[1, 2, 3] false]) log m ∧
      (m.file 0).data = #[9, 8, 7] ∧
      (Machine.fresh 1 (some 16) [.ofData #[1, 2, 3] false]).unmapped.Follows log g ∧
      g.places = m.places ∧ ∀ k, (∀ ref i, g.places ref i ≠ some (0, k)) →
        #[9, 8, 7][k]? = (g.view 0)[k]? := by
  have complete : ∀ file ∈ [File.ofData #[1, 2, 3] false], file.face.Complete := by
    intro file hfile
    rw [List.mem_singleton.1 hfile]
    exact ⟨fun _ _ _ => rfl, fun _ _ _ => rfl, nofun⟩
  have played : ((Machine.fresh 1 (some 16) [.ofData #[1, 2, 3] false]).serve [
      .map 0 (.ofBits 8192) 4096 true 0 0, .write 0 (.ofBits 8192) #[9, 8, 7, 6] (.ofBits 0),
      .declare 0 (.ofBits 4096) true .anon none, .write 0 (.ofBits 4096) #[5] (.ofBits 0),
      .read 0 (.ofBits 8192) 3 (.ofBits 0), .unmap 0 (.ofBits 8192)]).any
        (fun r => (r.2.file 0).data == #[9, 8, 7]) = true := by decide +kernel
  obtain ⟨⟨log, m⟩, hserved, hdata⟩ := (Option.any_eq_true _ _).1 played
  obtain ⟨a, m₁, rest, first, hrest, rfl⟩ := Machine.serve_cons hserved
  have mapped : Run Operation.MapsOnce (.fresh 1 (some 16) [.ofData #[1, 2, 3] false]) ([] ++ _) m₁ :=
    .turn .nil first fun e he => List.mem_singleton.1 he ▸ nofun
  have run := mapped.serve (by simp [Operation.MapsOnce]) hrest
  have hfile := beq_iff_eq.1 hdata
  obtain ⟨g, hfollows, hplaces, hfiles⟩ := mapped_files_coherent complete run
  refine ⟨_, m, g, complete, run, hfile, hfollows, hplaces, fun k hk => ?_⟩
  rw [← hfile]
  exact (hfiles 0).2 k hk

end DemandPaging
