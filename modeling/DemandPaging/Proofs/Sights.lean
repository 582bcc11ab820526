import DemandPaging.Proofs.Looks
import DemandPaging.Proofs.Accesses

/-!
Files as they are seen through pages. A sight tells which byte of a file each byte of a page shows
and what the files hold in the eyes of those who read and write the pages. The files themselves fall
behind where a page was written to and not yet written back, and nowhere else.
-/

namespace DemandPaging

open DemandPaging.Core
open Function (update)

def PageKind.window : PageKind → Option FileBacking
  | uninit (.file backing) _ => some backing
  | file backing => some backing
  | _ => none

def FileBacking.place (backing : FileBacking) (i : Nat) : Option (FileId × Nat) :=
  if i < backing.readBytes then some (backing.file, backing.offset + i) else none

theorem FileBacking.place_eq_some {backing : FileBacking} {i : Nat} {p : FileId × Nat} :
    backing.place i = some p ↔ i < backing.readBytes ∧ p = (backing.file, backing.offset + i) := by
  unfold place
  split
  · next hi => exact ⟨fun h => ⟨hi, (Option.some.inj h).symm⟩, fun h => congrArg some h.2.symm⟩
  · next hi => exact ⟨nofun, fun h => (hi h.1).elim⟩

def PageKind.place (kind : PageKind) (i : Nat) : Option (FileId × Nat) :=
  kind.window.bind fun backing => backing.place i

abbrev Places : Type := PageRef → Nat → Option (FileId × Nat)

def Looks.places (L : Looks) : Places := fun ref i => (L ref).bind fun look => look.kind.place i

theorem Looks.update_some {L : Looks} {ref r : PageRef} {new look : Look}
    (h : update L ref (some new) r = some look) :
    (r = ref ∧ look = new) ∨ (r ≠ ref ∧ L r = some look) := by
  by_cases hr : r = ref
  · subst hr
    rw [Function.update_self] at h
    exact .inl ⟨rfl, (Option.some.inj h).symm⟩
  · exact .inr ⟨hr, (Function.update_of_ne hr _ _).symm.trans h⟩

theorem Places.update_some {P : Places} {ref r : PageRef} {new : Nat → Option (FileId × Nat)} {i : Nat}
    {p : FileId × Nat} (h : update P ref new r i = some p) :
    (r = ref ∧ new i = some p) ∨ (r ≠ ref ∧ P r i = some p) := by
  by_cases hr : r = ref
  · subst hr
    rw [Function.update_self] at h
    exact .inl ⟨rfl, h⟩
  · rw [Function.update_of_ne hr] at h
    exact .inr ⟨hr, h⟩

theorem Looks.places_found {L : Looks} {ref : PageRef} {look : Look} {i : Nat}
    (found : L ref = some look) : L.places ref i = look.kind.place i := by
  rw [Looks.places, found, Option.bind_some]

theorem Looks.places_update {L : Looks} {ref : PageRef} {look new : Look} (found : L ref = some look)
    (window : new.kind.window = look.kind.window) :
    Looks.places (update L ref (some new)) = L.places := by
  funext r i
  unfold Looks.places
  by_cases hr : r = ref
  · subst hr
    rw [Function.update_self, found, Option.bind_some, Option.bind_some, PageKind.place,
      PageKind.place, window]
  · rw [Function.update_of_ne hr]

@[ext]
structure Sight where
  places : Places
  view : FileId → Array UInt8
  regions : Table PageRef Nat

namespace Sight

def store (g : Sight) (x : ByteAt) : Sight :=
  match g.places x.ref x.offset with
  | some (id, k) => { g with view := update g.view id ((g.view id).setIfInBounds k x.byte) }
  | none => g

def storeAll (g : Sight) (xs : List ByteAt) : Sight := xs.foldl store g

def Shows (g : Sight) (x : ByteAt) : Prop :=
  ∀ id k, g.places x.ref x.offset = some (id, k) → (g.view id)[k]? = some x.byte

end Sight

namespace Deed

def see (g : Sight) : Deed → Sight
  | add ref page =>
      match page.kind.window with
      | some backing => { g with places := update g.places ref backing.place }
      | none => g
  | write ref offset bytes => g.storeAll (ByteAt.row ref offset bytes.toList)
  | drop ref => { g with places := update g.places ref fun _ => none }
  | chart regions => { g with regions }
  | _ => g

def seeAll (g : Sight) (ds : List Deed) : Sight := ds.foldl see g

/-- A page that is to show a file shows bytes that no page shows yet, as they are; and no page comes
to show what another one does. -/
def Opens (g : Sight) : Deed → Prop
  | add _ page => ∀ backing, page.kind.window = some backing →
      page.kind = .uninit (.file backing) none ∧ ∀ i < backing.readBytes,
        backing.offset + i < (g.view backing.file).size ∧
          ∀ ref j, g.places ref j ≠ some (backing.file, backing.offset + i)
  | share _ _ _ | lose _ => False
  | _ => True

end Deed

namespace Sight

variable {g : Sight} {L L' : Looks} {F F' : Files} {ds es : List Deed} {ref : PageRef} {id : FileId}
  {k : Nat}

def OpensAll (g : Sight) : List Deed → Prop
  | [] => True
  | d :: ds => d.Opens g ∧ OpensAll (d.see g) ds

def ShowsAll (g : Sight) : List Deed → Prop
  | [] => True
  | d :: ds => (∀ x ∈ d.loads, g.Shows x) ∧ ShowsAll (d.see g) ds

theorem seeAll_append (g : Sight) (ds es : List Deed) :
    Deed.seeAll g (ds ++ es) = Deed.seeAll (Deed.seeAll g ds) es :=
  List.foldl_append

theorem opensAll_append :
    g.OpensAll (ds ++ es) ↔ g.OpensAll ds ∧ (Deed.seeAll g ds).OpensAll es := by
  induction ds generalizing g with
  | nil => exact ⟨fun h => ⟨trivial, h⟩, And.right⟩
  | cons d ds ih =>
      simp only [List.cons_append, OpensAll, ih, and_assoc]
      rfl

theorem showsAll_append :
    g.ShowsAll (ds ++ es) ↔ g.ShowsAll ds ∧ (Deed.seeAll g ds).ShowsAll es := by
  induction ds generalizing g with
  | nil => exact ⟨fun h => ⟨trivial, h⟩, And.right⟩
  | cons d ds ih =>
      simp only [List.cons_append, ShowsAll, ih, and_assoc]
      rfl

theorem opensAll_of (h : ∀ d ∈ ds, ∀ g, d.Opens g) : g.OpensAll ds := by
  induction ds generalizing g with
  | nil => trivial
  | cons d ds ih =>
      exact ⟨h d List.mem_cons_self g, ih fun e he => h e (List.mem_cons_of_mem d he)⟩

theorem see_settles {d : Deed} (h : d.Settles ref) : d.see g = g := by
  cases d with
  | make | fail => rfl
  | _ => exact h.elim

theorem quiet_settles (h : ∀ d ∈ ds, d.Settles ref) : Deed.seeAll g ds = g ∧ g.ShowsAll ds := by
  induction ds with
  | nil => exact ⟨rfl, trivial⟩
  | cons d ds ih =>
      obtain ⟨hsee, hshows⟩ := ih fun e he => h e (List.mem_cons_of_mem d he)
      have hd := h d List.mem_cons_self
      have hsame := @see_settles g ref d hd
      refine ⟨?_, ?_, ?_⟩
      · rw [Deed.seeAll, List.foldl_cons, hsame]
        exact hsee
      · cases d with
        | make | fail => exact nofun
        | _ => exact hd.elim
      · rw [hsame]
        exact hshows

theorem store_at {x : ByteAt} {i : FileId} {j : Nat} (h : g.places x.ref x.offset = some (i, j)) :
    g.store x = { g with view := update g.view i ((g.view i).setIfInBounds j x.byte) } := by
  unfold store
  rw [h]

theorem store_nowhere {x : ByteAt} (h : g.places x.ref x.offset = none) : g.store x = g := by
  unfold store
  rw [h]

theorem store_places (g : Sight) (x : ByteAt) : (g.store x).places = g.places := by
  unfold store
  split <;> rfl

theorem store_regions (g : Sight) (x : ByteAt) : (g.store x).regions = g.regions := by
  unfold store
  split <;> rfl

theorem size_store (g : Sight) (x : ByteAt) (id : FileId) :
    ((g.store x).view id).size = (g.view id).size := by
  cases hplace : g.places x.ref x.offset with
  | none => rw [store_nowhere hplace]
  | some place =>
      rw [store_at hplace]
      by_cases hi : id = place.1
      · subst hi
        simp only [Function.update_self, Array.size_setIfInBounds]
      · simp only [Function.update_of_ne hi]

theorem storeAll_places (g : Sight) (xs : List ByteAt) : (g.storeAll xs).places = g.places := by
  induction xs generalizing g with
  | nil => rfl
  | cons x xs ih => exact (ih (g.store x)).trans (store_places g x)

theorem storeAll_regions (g : Sight) (xs : List ByteAt) : (g.storeAll xs).regions = g.regions := by
  induction xs generalizing g with
  | nil => rfl
  | cons x xs ih => exact (ih (g.store x)).trans (store_regions g x)

theorem size_storeAll (g : Sight) (xs : List ByteAt) (id : FileId) :
    ((g.storeAll xs).view id).size = (g.view id).size := by
  induction xs generalizing g with
  | nil => rfl
  | cons x xs ih => exact (ih (g.store x)).trans (size_store g x id)

theorem store_other {x : ByteAt} (h : g.places x.ref x.offset ≠ some (id, k)) :
    ((g.store x).view id)[k]? = (g.view id)[k]? := by
  cases hplace : g.places x.ref x.offset with
  | none => rw [store_nowhere hplace]
  | some place =>
      obtain ⟨i, j⟩ := place
      rw [store_at hplace]
      by_cases hi : id = i
      · subst hi
        have hjk : j ≠ k := by
          rintro rfl
          exact h hplace
        simp only [Function.update_self, Array.getElem?_setIfInBounds_ne hjk]
      · simp only [Function.update_of_ne hi]

theorem store_here {x : ByteAt} (h : g.places x.ref x.offset = some (id, k))
    (hk : k < (g.view id).size) : ((g.store x).view id)[k]? = some x.byte := by
  rw [store_at h]
  simp only [Function.update_self, Array.getElem?_setIfInBounds_self_of_lt hk]

theorem storeAll_other {xs : List ByteAt} (h : ∀ x ∈ xs, g.places x.ref x.offset ≠ some (id, k)) :
    ((g.storeAll xs).view id)[k]? = (g.view id)[k]? := by
  induction xs generalizing g with
  | nil => rfl
  | cons x xs ih =>
      have hrest : ∀ y ∈ xs, (g.store x).places y.ref y.offset ≠ some (id, k) := by
        intro y hy
        rw [store_places]
        exact h y (List.mem_cons_of_mem x hy)
      exact (ih hrest).trans (store_other (h x List.mem_cons_self))

theorem storeAll_row {offset i : Nat} {bytes : List UInt8} (h : g.places ref i = some (id, k))
    (alone : ∀ j, g.places ref j = some (id, k) → j = i) (hk : k < (g.view id).size) :
    ((g.storeAll (ByteAt.row ref offset bytes)).view id)[k]? =
      if offset ≤ i ∧ i < offset + bytes.length then bytes[i - offset]? else (g.view id)[k]? := by
  induction bytes generalizing g offset with
  | nil =>
      rw [List.length_nil, if_neg (by omega)]
      rfl
  | cons byte rest ih =>
      have hsize : k < ((g.store ⟨ref, offset, byte⟩).view id).size := by
        rw [size_store]
        exact hk
      have hrest := @ih (g.store ⟨ref, offset, byte⟩) (offset + 1) (by rw [store_places]; exact h)
        (by rw [store_places]; exact alone) hsize
      refine hrest.trans ?_
      rw [List.length_cons]
      by_cases hi : i = offset
      · subst hi
        rw [if_neg (by omega), if_pos (by omega), Nat.sub_self, List.getElem?_cons_zero]
        exact store_here h hk
      · have hne : g.places ref offset ≠ some (id, k) := fun he => hi (alone offset he).symm
        by_cases hin : offset + 1 ≤ i ∧ i < offset + 1 + rest.length
        · rw [if_pos hin, if_pos (by omega), show i - offset = i - (offset + 1) + 1 by omega,
            List.getElem?_cons_succ]
        · rw [if_neg hin, if_neg (by omega)]
          exact store_other (x := ⟨ref, offset, byte⟩) hne

end Sight

/-- Reads and writes move all bytes that exist in the file. -/
structure FileFace.Complete (face : FileFace) : Prop where
  reads : ∀ k n, n ≤ face.data.size → File.capped (face.readCap k) n = n
  writes : ∀ k n, n ≤ face.data.size → File.capped (face.writeCap k) n = n
  room : ∀ limit, face.growsTo = some limit → face.data.size ≤ limit

namespace FileFace

variable {face : FileFace} {offset count moved i : Nat} {bytes got : Array UInt8}

theorem Complete.accepts (h : face.Complete) (inside : ∀ j < bytes.size, offset + j < face.data.size)
    (taken : face.Accepts offset bytes moved) : moved = bytes.size := by
  obtain ⟨k, rfl⟩ := taken
  rcases Nat.eq_zero_or_pos bytes.size with hzero | hpos
  · rw [hzero, Nat.zero_min]
    exact Nat.le_zero.1 (File.capped_le _ _)
  · have hlast := inside (bytes.size - 1) (by omega)
    have hroom : bytes.size ≤ face.room offset := by
      unfold FileFace.room
      cases hgrows : face.growsTo with
      | none =>
          rw [Option.getD_none]
          omega
      | some limit =>
          have hlimit := h.room limit hgrows
          rw [Option.getD_some]
          omega
    rw [Nat.min_eq_left hroom]
    exact h.writes k _ (by omega)

theorem Complete.delivers (h : face.Complete) (got_of : face.Delivers offset count got)
    (hi : i < count) : got[i]? = face.data[offset + i]? := by
  obtain ⟨k, rfl⟩ := got_of
  rw [h.reads k _ (by omega), Array.getElem?_extract]
  split
  · rfl
  · rw [Array.getElem?_eq_none (by omega)]

theorem put_size (inside : ∀ j < bytes.size, offset + j < face.data.size) :
    (face.put offset bytes bytes.size).data.size = face.data.size := by
  unfold put
  split
  · rfl
  · have hlast := inside (bytes.size - 1) (by omega)
    simp only [File.size_overwrite, Array.size_extract, Nat.sub_zero, Nat.min_self]
    omega

theorem Complete.put (h : face.Complete) (inside : ∀ j < bytes.size, offset + j < face.data.size) :
    (face.put offset bytes bytes.size).Complete := by
  have hsize := put_size inside
  have hsame : (face.put offset bytes bytes.size).growsTo = face.growsTo ∧
      (face.put offset bytes bytes.size).readCap = face.readCap ∧
        (face.put offset bytes bytes.size).writeCap = face.writeCap := by
    unfold FileFace.put
    split <;> exact ⟨rfl, rfl, rfl⟩
  obtain ⟨hgrows, hread, hwrite⟩ := hsame
  constructor
  · rw [hsize, hread]
    exact h.reads
  · rw [hsize, hwrite]
    exact h.writes
  · rw [hsize, hgrows]
    exact h.room

end FileFace

namespace Files

variable {F : Files} {backing : FileBacking} {bytes : PageBytes} {moved k : Nat} {id : FileId}

theorem putBack_self : F.putBack backing bytes backing.readBytes backing.file =
    (F backing.file).put backing.offset (PageBytes.slice bytes 0 backing.readBytes)
      (PageBytes.slice bytes 0 backing.readBytes).size := by
  rw [putBack, Function.update_self, PageBytes.slice, Array.size_ofFn]

theorem putBack_of_ne (hid : id ≠ backing.file) : F.putBack backing bytes moved id = F id :=
  Function.update_of_ne hid _ _

theorem getElem?_putBack (hk : k < (F id).data.size) :
    (F.putBack backing bytes moved id).data[k]? =
      if ∃ i < moved, backing.place i = some (id, k) then some (bytes.byteAt (k - backing.offset))
      else (F id).data[k]? := by
  by_cases hid : id = backing.file
  · subst hid
    simp only [putBack, Function.update_self, FileFace.put]
    split
    · next hmoved => rw [if_neg (by omega)]
    · have hsize : ((PageBytes.slice bytes 0 backing.readBytes).extract 0 moved).size =
          min moved backing.readBytes := by
        rw [Array.size_extract, PageBytes.slice, Array.size_ofFn, Nat.sub_zero]
      rw [File.getElem?_overwrite hk, hsize]
      by_cases hin : backing.offset ≤ k ∧ k < backing.offset + min moved backing.readBytes
      · have hplace : backing.place (k - backing.offset) = some (backing.file, k) :=
          FileBacking.place_eq_some.2 ⟨by omega, by rw [Nat.add_sub_cancel' hin.1]⟩
        have hslice : (PageBytes.slice bytes 0 backing.readBytes).size = backing.readBytes :=
          Array.size_ofFn
        rw [if_pos hin, if_pos ⟨_, by omega, hplace⟩, Array.getElem?_extract, if_pos (by omega),
          Nat.zero_add, PageBytes.getElem?_slice (by omega), Nat.zero_add]
      · rw [if_neg hin, if_neg]
        rintro ⟨i, hi, hplace⟩
        obtain ⟨hread, heq⟩ := FileBacking.place_eq_some.1 hplace
        have hoff := (Prod.mk.inj heq).2
        omega
  · have hnone : ¬ ∃ i < moved, backing.place i = some (id, k) := by
      rintro ⟨i, -, hplace⟩
      exact hid (Prod.mk.inj (FileBacking.place_eq_some.1 hplace).2).1
    rw [if_neg hnone, putBack_of_ne hid]

end Files

namespace PageKind

variable {kind kind' : PageKind} {bytes : PageBytes} {F F' : Files} {i : Nat} {p : FileId × Nat}

theorem place_eq_some : kind.place i = some p ↔
    ∃ backing, kind.window = some backing ∧ i < backing.readBytes ∧
      p = (backing.file, backing.offset + i) := by
  unfold place
  cases kind.window with
  | none => exact ⟨nofun, nofun⟩
  | some backing =>
      simp only [Option.bind_some, Option.some.injEq, exists_eq_left', FileBacking.place_eq_some]

theorem window_anon (h : kind.pageType = .anon) : kind.window = none := by
  cases kind with
  | uninit target =>
      cases target with
      | anon => rfl
      | file => exact nomatch h
  | anon => rfl
  | file => exact nomatch h

theorem window_loads (h : Loads F kind kind' bytes) : kind'.window = kind.window := by
  cases h with
  | anon anon => exact (window_anon anon).symm
  | _ => rfl

theorem used_loads (h : Loads F kind kind' bytes) : kind'.isUninit = false := by
  cases h <;> rfl

theorem window_saved {dirty : Bool} (h : Saved F bytes kind dirty kind' F') :
    kind'.window = kind.window := by
  cases h <;> rfl

end PageKind

/-- The pages and the files are what they are seen to be: pages in memory hold what is seen, and the
files do wherever no page that was written to shows them. -/
structure Sight.Agrees (g : Sight) (L : Looks) (F : Files) : Prop where
  places : g.places = L.places
  complete : ∀ id, (F id).Complete
  size : ∀ id, (F id).data.size = (g.view id).size
  plain : ∀ ref look backing init, L ref = some look → look.kind = .uninit (.file backing) init →
    init = none
  used : ∀ ref look, L ref = some look → look.content.isSome → look.kind.isUninit = false
  marked : ∀ ref look, L ref = some look → look.dirty = true →
    look.writable = true ∧ look.content.isSome
  inside : ∀ ref i id k, g.places ref i = some (id, k) → k < (g.view id).size
  apart : ∀ ref ref' i i' p, g.places ref i = some p → g.places ref' i' = some p → ref = ref'
  memory : ∀ ref look bytes, L ref = some look → look.content = some bytes → ∀ i id k,
    g.places ref i = some (id, k) → (g.view id)[k]? = some (bytes.byteAt i)
  disk : ∀ id k, (∀ ref look, L ref = some look → look.dirty = true →
    ∀ i, g.places ref i ≠ some (id, k)) → (F id).data[k]? = (g.view id)[k]?

namespace Sight.Agrees

variable {g : Sight} {L L' : Looks} {F F' : Files} {ds : List Deed} {ref : PageRef} {look look' : Look}
  {backing : FileBacking} {writable dirty : Bool} {bytes : PageBytes} {moved : Nat} {id : FileId}
  {k i : Nat}

theorem place_of (h : g.Agrees L F) (found : L ref = some look) :
    g.places ref i = look.kind.place i := by
  rw [h.places, Looks.places_found found]

theorem place_file (h : g.Agrees L F) (found : L ref = some look)
    (window : look.kind.window = some backing) (hi : i < backing.readBytes) :
    g.places ref i = some (backing.file, backing.offset + i) := by
  rw [h.place_of found]
  exact PageKind.place_eq_some.2 ⟨backing, window, hi, rfl⟩

theorem alone (h : g.Agrees L F) {j : Nat} {p : FileId × Nat} (hi : g.places ref i = some p)
    (hj : g.places ref j = some p) : j = i := by
  rw [h.places] at hi hj
  obtain ⟨look, found, hi⟩ := Option.bind_eq_some_iff.1 hi
  obtain ⟨look', found', hj⟩ := Option.bind_eq_some_iff.1 hj
  rw [found] at found'
  cases found'
  obtain ⟨b, hb, -, hp⟩ := PageKind.place_eq_some.1 hi
  obtain ⟨b', hb', -, hp'⟩ := PageKind.place_eq_some.1 hj
  rw [hb] at hb'
  cases hb'
  rw [hp] at hp'
  injection hp' with _ hoff
  omega

theorem place_vacant (h : g.Agrees L F) (vacant : L ref = none) : g.places ref = fun _ => none := by
  rw [h.places]
  funext i
  rw [Looks.places, vacant, Option.bind_none]

theorem places_update (h : g.Agrees L F) (found : L ref = some look)
    (window : look'.kind.window = look.kind.window) :
    g.places = Looks.places (update L ref (some look')) :=
  h.places.trans (Looks.places_update found window).symm

theorem inside_file (h : g.Agrees L F) (found : L ref = some look)
    (window : look.kind.window = some backing) (hi : i < backing.readBytes) :
    backing.offset + i < (F backing.file).data.size := by
  rw [h.size]
  exact h.inside ref i _ _ (h.place_file found window hi)

theorem slice_inside (h : g.Agrees L F) (found : L ref = some look)
    (window : look.kind.window = some backing) :
    ∀ j < (PageBytes.slice bytes 0 backing.readBytes).size,
      backing.offset + j < (F backing.file).data.size := by
  intro j hj
  rw [PageBytes.slice, Array.size_ofFn] at hj
  exact h.inside_file found window hj

theorem taken_whole (h : g.Agrees L F) (found : L ref = some look)
    (window : look.kind.window = some backing) (taken : F.Takes backing bytes moved) :
    moved = backing.readBytes :=
  ((h.complete backing.file).accepts (h.slice_inside found window) taken).trans Array.size_ofFn

theorem putBack_complete (h : g.Agrees L F) (found : L ref = some look)
    (window : look.kind.window = some backing) (id : FileId) :
    (F.putBack backing bytes backing.readBytes id).Complete := by
  by_cases hid : id = backing.file
  · rw [hid, Files.putBack_self]
    exact (h.complete _).put (h.slice_inside found window)
  · rw [Files.putBack_of_ne hid]
    exact h.complete id

theorem putBack_size (h : g.Agrees L F) (found : L ref = some look)
    (window : look.kind.window = some backing) (id : FileId) :
    (F.putBack backing bytes backing.readBytes id).data.size = (F id).data.size := by
  by_cases hid : id = backing.file
  · rw [hid, Files.putBack_self]
    exact FileFace.put_size (h.slice_inside found window)
  · rw [Files.putBack_of_ne hid]

theorem putBack_shown (h : g.Agrees L F) (found : L ref = some look)
    (window : look.kind.window = some backing) (content : look.content = some bytes)
    (place : g.places ref i = some (id, k)) :
    (F.putBack backing bytes backing.readBytes id).data[k]? = (g.view id)[k]? := by
  have inside : k < (F id).data.size := by
    rw [h.size]
    exact h.inside ref i id k place
  rw [h.memory ref look bytes found content i id k place, Files.getElem?_putBack inside]
  rw [h.place_of found, PageKind.place, window, Option.bind_some] at place
  obtain ⟨hi, same⟩ := FileBacking.place_eq_some.1 place
  rw [if_pos ⟨i, hi, place⟩, (Prod.mk.inj same).2, Nat.add_sub_cancel_left]

theorem putBack_unshown (h : g.Agrees L F) (found : L ref = some look)
    (window : look.kind.window = some backing) (unshown : ∀ i, g.places ref i ≠ some (id, k)) :
    (F.putBack backing bytes backing.readBytes id).data[k]? = (F id).data[k]? := by
  by_cases hk : k < (F id).data.size
  · rw [Files.getElem?_putBack hk, if_neg]
    rintro ⟨i, -, place⟩
    refine unshown i ?_
    rw [h.place_of found, PageKind.place, window, Option.bind_some, place]
  · have beyond := Nat.le_of_not_lt hk
    rw [Array.getElem?_eq_none beyond,
      Array.getElem?_eq_none ((h.putBack_size found window id).symm ▸ beyond)]

/-- What is seen of a page is in its file once the page is put back. -/
theorem putBack_disk (h : g.Agrees L F) (found : L ref = some look)
    (window : look.kind.window = some backing) (content : look.content = some bytes)
    (rest : (∀ i, g.places ref i ≠ some (id, k)) → (F id).data[k]? = (g.view id)[k]?) :
    (F.putBack backing bytes backing.readBytes id).data[k]? = (g.view id)[k]? := by
  by_cases shown : ∃ i, g.places ref i = some (id, k)
  · obtain ⟨i, place⟩ := shown
    exact h.putBack_shown found window content place
  · have unshown : ∀ i, g.places ref i ≠ some (id, k) := fun i place => shown ⟨i, place⟩
    exact (h.putBack_unshown found window unshown).trans (rest unshown)

def Saved (g : Sight) (L : Looks) (id : FileId) (k : Nat) : Prop :=
  ∀ ref look, L ref = some look → look.dirty = true → ∀ i, g.places ref i ≠ some (id, k)

theorem Saved.before {new : Option Look} (h : Saved g (update L ref new) id k)
    (old : ∀ look, L ref = some look → look.dirty = true → ∀ i, g.places ref i ≠ some (id, k)) :
    Saved g L id k := by
  intro r look found marked
  by_cases hr : r = ref
  · subst hr
    exact old look found marked
  · exact h r look ((Function.update_of_ne hr _ _).trans found) marked

theorem see_add {kind : PageKind} (h : g.Agrees L F) (vacant : L ref = none) :
    (Deed.add ref (.fresh ref.space writable kind)).see g =
      { g with places := update g.places ref kind.place } := by
  simp only [Deed.see, Page.fresh]
  split
  · next backing hwindow =>
      have hplace : kind.place = backing.place := by
        funext i
        rw [PageKind.place, hwindow, Option.bind_some]
      rw [hplace]
  · next hwindow =>
      have hplace : kind.place = g.places ref := by
        rw [h.place_vacant vacant]
        funext i
        rw [PageKind.place, hwindow, Option.bind_none]
      rw [hplace, Function.update_eq_self]

theorem add {kind : PageKind} (h : g.Agrees L F) (vacant : L ref = none)
    (opens : (Deed.add ref (.fresh ref.space writable kind)).Opens g) :
    ((Deed.add ref (.fresh ref.space writable kind)).see g).Agrees
      (update L ref (some ⟨kind, writable, none, false⟩)) F := by
  have hnew {i : Nat} {p : FileId × Nat} (hp : kind.place i = some p) :
      p.2 < (g.view p.1).size ∧ ∀ r j, g.places r j ≠ some p := by
    obtain ⟨backing, hwindow, hi, rfl⟩ := PageKind.place_eq_some.1 hp
    exact (opens backing hwindow).2 i hi
  rw [h.see_add vacant]
  constructor
  case places =>
    funext r i
    by_cases hr : r = ref
    · subst hr
      simp only [Looks.places, Function.update_self, Option.bind_some]
    · simp only [Looks.places, Function.update_of_ne hr, h.places]
  case complete => exact h.complete
  case size => exact h.size
  case plain =>
    intro r l b init found huninit
    rcases Looks.update_some found with ⟨rfl, rfl⟩ | ⟨-, found⟩
    · change kind = _ at huninit
      have hopens := (opens b (show kind.window = some b by rw [huninit]; rfl)).1
      change kind = _ at hopens
      rw [hopens] at huninit
      cases huninit
      rfl
    · exact h.plain r l b init found huninit
  case used =>
    intro r l found content
    rcases Looks.update_some found with ⟨rfl, rfl⟩ | ⟨-, found⟩
    · cases content
    · exact h.used r l found content
  case marked =>
    intro r l found marked
    rcases Looks.update_some found with ⟨rfl, rfl⟩ | ⟨-, found⟩
    · cases marked
    · exact h.marked r l found marked
  case inside =>
    intro r i j n hplace
    rcases Places.update_some hplace with ⟨rfl, hp⟩ | ⟨-, hp⟩
    · exact (hnew hp).1
    · exact h.inside r i j n hp
  case apart =>
    -- what the new page shows nobody has shown so far
    intro r r' i i' p hplace hplace'
    rcases Places.update_some hplace with ⟨rfl, hp⟩ | ⟨-, hp⟩ <;>
      rcases Places.update_some hplace' with ⟨rfl, hp'⟩ | ⟨-, hp'⟩
    · rfl
    · exact ((hnew hp).2 r' i' hp').elim
    · exact ((hnew hp').2 r i hp).elim
    · exact h.apart r r' i i' p hp hp'
  case memory =>
    intro r l bytes found content i j n hplace
    rcases Looks.update_some found with ⟨rfl, rfl⟩ | ⟨hr, found⟩
    · cases content
    · exact h.memory r l bytes found content i j n
        ((congrFun (Function.update_of_ne hr _ _) i).symm.trans hplace)
  case disk =>
    intro i n hsaved
    refine h.disk i n fun r l found marked j hplace => ?_
    have hr : r ≠ ref := by
      rintro rfl
      rw [vacant] at found
      cases found
    refine hsaved r l ((Function.update_of_ne hr _ _).trans found) marked j ?_
    exact (congrFun (Function.update_of_ne hr _ _) j).trans hplace

theorem replace (h : g.Agrees L F) (found : L ref = some look)
    (window : look'.kind.window = look.kind.window)
    (plain : ∀ backing init, look'.kind = .uninit (.file backing) init → init = none)
    (used : look'.content.isSome → look'.kind.isUninit = false) (clean : look'.dirty = false)
    (complete : ∀ id, (F' id).Complete) (size : ∀ id, (F' id).data.size = (F id).data.size)
    (memory : ∀ bytes, look'.content = some bytes → ∀ i id k, g.places ref i = some (id, k) →
      (g.view id)[k]? = some (bytes.byteAt i))
    (disk : ∀ id k, Saved g (update L ref (some look')) id k → (F' id).data[k]? = (g.view id)[k]?) :
    g.Agrees (update L ref (some look')) F' := by
  constructor
  case places => exact h.places_update found window
  case complete => exact complete
  case size => exact fun id => (size id).trans (h.size id)
  case plain =>
    intro r l b init hl hk
    rcases Looks.update_some hl with ⟨rfl, rfl⟩ | ⟨-, hl⟩
    · exact plain b init hk
    · exact h.plain r l b init hl hk
  case used =>
    intro r l hl hc
    rcases Looks.update_some hl with ⟨rfl, rfl⟩ | ⟨-, hl⟩
    · exact used hc
    · exact h.used r l hl hc
  case marked =>
    intro r l hl hm
    rcases Looks.update_some hl with ⟨rfl, rfl⟩ | ⟨-, hl⟩
    · rw [clean] at hm
      exact nomatch hm
    · exact h.marked r l hl hm
  case inside => exact h.inside
  case apart => exact h.apart
  case memory =>
    intro r l b hl hc i id k hplace
    rcases Looks.update_some hl with ⟨rfl, rfl⟩ | ⟨-, hl⟩
    · exact memory b hc i id k hplace
    · exact h.memory r l b hl hc i id k hplace
  case disk => exact disk

theorem evict {kind kind' : PageKind} (h : g.Agrees L F)
    (found : L ref = some ⟨kind, writable, some bytes, dirty⟩)
    (saved : DemandPaging.Saved F bytes kind dirty kind' F') :
    g.Agrees (update L ref (some ⟨kind', writable, none, false⟩)) F' := by
  have hwindow := PageKind.window_saved saved
  cases saved with
  | anon =>
      refine h.replace found hwindow nofun nofun rfl h.complete (fun _ => rfl) nofun ?_
      intro i n hsaved
      refine h.disk i n (hsaved.before fun l hl _ j hplace => ?_)
      rw [h.place_of found] at hplace
      exact nomatch hplace
  | clean =>
      refine h.replace found hwindow nofun nofun rfl h.complete (fun _ => rfl) nofun ?_
      intro i n hsaved
      refine h.disk i n (hsaved.before fun l hl marked => ?_)
      rw [found] at hl
      cases hl
      exact nomatch marked
  | dirty =>
      refine h.replace found hwindow nofun nofun rfl (h.putBack_complete found rfl)
        (h.putBack_size found rfl) nofun fun i n hsaved => ?_
      exact h.putBack_disk found rfl rfl fun unshown =>
        h.disk i n (hsaved.before fun _ _ _ => unshown)

theorem fill {kind kind' : PageKind} (h : g.Agrees L F)
    (found : L ref = some ⟨kind, writable, none, false⟩) (loads : Loads F kind kind' bytes) :
    g.Agrees (update L ref (some ⟨kind', writable, some bytes, false⟩)) F := by
  have hwindow := PageKind.window_loads loads
  have hold : ∀ i n, Saved g (update L ref (some ⟨kind', writable, some bytes, false⟩)) i n →
      (F i).data[n]? = (g.view i)[n]? := by
    intro i n hsaved
    refine h.disk i n (hsaved.before fun l hl marked => ?_)
    rw [found] at hl
    cases hl
    exact nomatch marked
  -- what was read of the file is what is seen there, as the page was not written to
  have fresh {b : FileBacking} {got : Array UInt8} (hk : kind.window = some b)
      (got_of : (F b.file).Delivers b.offset b.readBytes got) {i : Nat} {id : FileId} {k : Nat}
      (hplace : g.places ref i = some (id, k)) :
      (g.view id)[k]? = some ((PageBytes.ofArray got).byteAt i) := by
    have hinside := h.inside ref i id k hplace
    have hdisk := h.disk id k fun r l hl marked j hj => by
      have hr := h.apart r ref j i _ hj hplace
      subst hr
      rw [found] at hl
      cases hl
      exact nomatch marked
    rw [h.place_of found] at hplace
    obtain ⟨b', hb', hi, hp⟩ := PageKind.place_eq_some.1 hplace
    rw [show kind.window = some b from hk] at hb'
    cases hb'
    cases hp
    have hgot := (h.complete b.file).delivers got_of hi
    rw [PageBytes.byteAt_ofArray (Nat.lt_of_lt_of_le hi b.readBytes_le), hgot, hdisk,
      Array.getElem?_eq_getElem hinside, Option.getD_some]
  have hused := PageKind.used_loads loads
  refine h.replace found hwindow (fun b init hk => ?_) (fun _ => hused) rfl h.complete
    (fun _ => rfl) ?_ hold
  · rw [show kind' = _ from hk] at hused
    exact nomatch hused
  · intro page hpage i id k hplace
    cases hpage
    cases loads with
    | anon anon =>
        rw [h.place_of found, PageKind.place, PageKind.window_anon anon] at hplace
        exact nomatch hplace
    | file got_of | newFile got_of => exact fresh rfl got_of hplace
    | made => exact nomatch h.plain ref _ _ _ found rfl

theorem fail {target : PageTarget} {init kept : Initializer} (h : g.Agrees L F)
    (found : L ref = some ⟨.uninit target (some init), writable, none, false⟩) :
    g.Agrees (update L ref (some ⟨.uninit target (some kept), writable, none, false⟩)) F := by
  refine h.replace found (by cases target <;> rfl) (fun b i hk => ?_) nofun rfl h.complete
    (fun _ => rfl) nofun fun i n hsaved => ?_
  · cases hk
    exact nomatch h.plain ref _ _ _ found rfl
  · refine h.disk i n (hsaved.before fun l hl marked => ?_)
    rw [found] at hl
    cases hl
    exact nomatch marked

theorem write {kind : PageKind} {offset : Nat} {new : Array UInt8} (h : g.Agrees L F)
    (found : L ref = some ⟨kind, true, some bytes, dirty⟩) :
    ((Deed.write ref offset new).see g).Agrees
      (update L ref (some ⟨kind, true, some (bytes.patch offset new), true⟩)) F := by
  have hplaces : ((Deed.write ref offset new).see g).places = g.places := storeAll_places _ _
  have hsize (id : FileId) : (((Deed.write ref offset new).see g).view id).size =
      (g.view id).size := size_storeAll _ _ id
  have hother {id : FileId} {k : Nat} (hne : ∀ i, g.places ref i ≠ some (id, k)) :
      (((Deed.write ref offset new).see g).view id)[k]? = (g.view id)[k]? := by
    refine storeAll_other fun x hx => ?_
    obtain ⟨href, j, hj, -⟩ := ByteAt.mem_row hx
    rw [href, hj]
    exact hne _
  constructor
  case places =>
    rw [hplaces]
    exact h.places_update found rfl
  case complete => exact h.complete
  case size => exact fun id => (h.size id).trans (hsize id).symm
  case plain =>
    intro r l b init hl hk
    rcases Looks.update_some hl with ⟨rfl, rfl⟩ | ⟨-, hl⟩
    · exact h.plain r _ b init found hk
    · exact h.plain r l b init hl hk
  case used =>
    intro r l hl hc
    rcases Looks.update_some hl with ⟨rfl, rfl⟩ | ⟨-, hl⟩
    · exact h.used r ⟨kind, true, some bytes, dirty⟩ found rfl
    · exact h.used r l hl hc
  case marked =>
    intro r l hl hm
    rcases Looks.update_some hl with ⟨rfl, rfl⟩ | ⟨-, hl⟩
    · exact ⟨rfl, rfl⟩
    · exact h.marked r l hl hm
  case inside =>
    intro r i id k hplace
    rw [hplaces] at hplace
    rw [hsize]
    exact h.inside r i id k hplace
  case apart =>
    rw [hplaces]
    exact h.apart
  case memory =>
    -- the view changes only where this page shows it, and no other page shows the same place
    intro r l b hl hc i id k hplace
    rw [hplaces] at hplace
    rcases Looks.update_some hl with ⟨rfl, rfl⟩ | ⟨hr, hl⟩
    · cases hc
      have hold := h.memory r _ bytes found rfl i id k hplace
      have hi : i < pageSize := by
        rw [h.place_of found] at hplace
        obtain ⟨b, -, hi, -⟩ := PageKind.place_eq_some.1 hplace
        exact Nat.lt_of_lt_of_le hi b.readBytes_le
      refine (storeAll_row hplace (fun j hj => h.alone hplace hj) (h.inside r i id k hplace)).trans ?_
      rw [PageBytes.some_byteAt_patch hi, hold, Array.length_toList, Array.getElem?_toList]
    · rw [hother fun j hj => hr (h.apart r ref i j _ hplace hj)]
      exact h.memory r l b hl hc i id k hplace
  case disk =>
    intro id k hsaved
    rw [hplaces] at hsaved
    have hne : ∀ i, g.places ref i ≠ some (id, k) := hsaved ref _ (Function.update_self _ _ _) rfl
    rw [hother hne]
    exact h.disk id k (Saved.before hsaved fun _ _ _ => hne)

theorem erase (h : g.Agrees L F) (complete : ∀ id, (F' id).Complete)
    (size : ∀ id, (F' id).data.size = (F id).data.size)
    (disk : ∀ id k, (∀ r look, r ≠ ref → L r = some look → look.dirty = true →
      ∀ i, g.places r i ≠ some (id, k)) → (F' id).data[k]? = (g.view id)[k]?) :
    ((Deed.drop ref).see g).Agrees (update L ref none) F' := by
  have old {r : PageRef} {l : Look} (hl : update L ref none r = some l) : r ≠ ref ∧ L r = some l := by
    by_cases hr : r = ref
    · subst hr
      rw [Function.update_self] at hl
      exact nomatch hl
    · exact ⟨hr, (Function.update_of_ne hr _ _).symm.trans hl⟩
  have kept {r : PageRef} {i : Nat} {p : FileId × Nat}
      (hp : ((Deed.drop ref).see g).places r i = some p) : g.places r i = some p := by
    rcases Places.update_some hp with ⟨-, hp⟩ | ⟨-, hp⟩
    · exact nomatch hp
    · exact hp
  constructor
  case places =>
    funext r i
    by_cases hr : r = ref
    · subst hr
      simp only [Deed.see, Looks.places, Function.update_self, Option.bind_none]
    · simp only [Deed.see, Looks.places, Function.update_of_ne hr, h.places]
  case complete => exact complete
  case size => exact fun id => (size id).trans (h.size id)
  case plain => exact fun r l b init hl hk => h.plain r l b init (old hl).2 hk
  case used => exact fun r l hl hc => h.used r l (old hl).2 hc
  case marked => exact fun r l hl hm => h.marked r l (old hl).2 hm
  case inside => exact fun r i id k hp => h.inside r i id k (kept hp)
  case apart => exact fun r r' i i' p hp hp' => h.apart r r' i i' p (kept hp) (kept hp')
  case memory => exact fun r l b hl hc i id k hp => h.memory r l b (old hl).2 hc i id k (kept hp)
  case disk =>
    intro id k hsaved
    refine disk id k fun r l hr hl marked i hp => ?_
    refine hsaved r l ((Function.update_of_ne hr _ _).trans hl) marked i ?_
    exact (congrFun (Function.update_of_ne hr _ _) i).trans hp

theorem drop (h : g.Agrees L F) (found : L ref = some look)
    (nothing : ∀ backing, look.kind = .file backing → look.content.isSome → look.writable = true →
      look.dirty = false) : ((Deed.drop ref).see g).Agrees (update L ref none) F := by
  refine h.erase h.complete (fun _ => rfl) fun id k hsaved => h.disk id k fun r l hl marked i hp => ?_
  by_cases hr : r = ref
  · subst hr
    rw [found] at hl
    cases hl
    obtain ⟨hwritable, hcontent⟩ := h.marked r look found marked
    have hused := h.used r look found hcontent
    rw [h.place_of found] at hp
    obtain ⟨b, hb, -⟩ := PageKind.place_eq_some.1 hp
    cases hk : look.kind with
    | uninit => rw [hk] at hused; exact nomatch hused
    | anon => rw [hk] at hb; exact nomatch hb
    | file backing =>
        rw [nothing backing hk hcontent hwritable] at marked
        exact nomatch marked
  · exact hsaved r l hr hl marked i hp

theorem dropWriting (h : g.Agrees L F)
    (found : L ref = some ⟨.file backing, true, some bytes, true⟩)
    (taken : F.Takes backing bytes moved) :
    ((Deed.drop ref).see g).Agrees (update L ref none) (F.putBack backing bytes moved) := by
  obtain rfl := h.taken_whole found rfl taken
  refine h.erase (h.putBack_complete found rfl) (h.putBack_size found rfl) fun id k hsaved => ?_
  refine h.putBack_disk found rfl rfl fun unshown => h.disk id k fun r l hl marked i hplace => ?_
  by_cases hr : r = ref
  · subst hr
    exact unshown i hplace
  · exact hsaved r l hr hl marked i hplace

theorem read {offset count : Nat} (h : g.Agrees L F) (found : L ref = some look)
    (content : look.content = some bytes) :
    ∀ x ∈ (Deed.read ref offset (PageBytes.slice bytes offset count)).loads, g.Shows x := by
  intro x hx id k hplace
  obtain ⟨rfl, hbyte⟩ := Deed.loads_slice hx
  rw [h.memory x.ref look bytes found content x.offset id k hplace, hbyte]

/-- Every move keeps what is seen, when files are opened to one page at a time. -/
theorem move (h : g.Agrees L F) (move : Move L F ds L' F') (opens : g.OpensAll ds) :
    (Deed.seeAll g ds).Agrees L' F' ∧ g.ShowsAll ds := by
  cases move with
  | still => exact ⟨h, trivial⟩
  | chart =>
      exact ⟨⟨h.places, h.complete, h.size, h.plain, h.used, h.marked, h.inside, h.apart, h.memory,
        h.disk⟩, nofun, trivial⟩
  | add vacant => exact ⟨h.add vacant opens.1, nofun, trivial⟩
  | spoil found taken short => exact (short (h.taken_whole found rfl taken)).elim
  | evict found saved => exact ⟨h.evict found saved, trivial⟩
  | fill found loads settles =>
      obtain ⟨hsee, hshows⟩ := @quiet_settles g _ _ settles
      rw [hsee]
      exact ⟨h.fill found loads, hshows⟩
  | fail found => exact ⟨h.fail found, nofun, trivial⟩
  | lose => exact opens.1.elim
  | share => exact opens.1.elim
  | read found content => exact ⟨h, h.read found content, trivial⟩
  | write found => exact ⟨h.write found, nofun, trivial⟩
  | drop found nothing => exact ⟨h.drop found nothing, nofun, trivial⟩
  | dropWriting found taken => exact ⟨h.dropWriting found taken, nofun, trivial⟩

end Sight.Agrees

theorem Deed.see_regions {g : Sight} {d : Deed} (h : ∀ regions, d ≠ .chart regions) :
    (d.see g).regions = g.regions := by
  cases d with
  | add ref page =>
      simp only [see]
      split <;> rfl
  | write => exact Sight.storeAll_regions _ _
  | chart regions => exact (h regions rfl).elim
  | _ => rfl

theorem Sight.seeAll_regions {g : Sight} {ds : List Deed} (h : ∀ regions, .chart regions ∉ ds) :
    (Deed.seeAll g ds).regions = g.regions := by
  induction ds generalizing g with
  | nil => rfl
  | cons d ds ih =>
      refine (ih fun t ht => h t (List.mem_cons_of_mem d ht)).trans (Deed.see_regions ?_)
      rintro t rfl
      exact h t List.mem_cons_self

namespace Core

variable {c c' : Core} {ds : List Deed} {g : Sight}

theorem Step.regions_seen (h : Step c ds c') (hr : g.regions = c.regions) :
    (Deed.seeAll g ds).regions = c'.regions := by
  by_cases hd : ∃ t, .chart t ∈ ds
  · obtain ⟨t, ht⟩ := hd
    cases h with
    | chart => rfl
    | fill _ _ _ filled => exact (filled.settles.1 _ ht).elim
    | _ => simp at ht
  · have hnone : ∀ t, .chart t ∉ ds := fun t ht => hd ⟨t, ht⟩
    rw [Sight.seeAll_regions hnone, h.regions hnone, hr]

theorem Steps.regions_seen (h : Steps c ds c') (hr : g.regions = c.regions) :
    (Deed.seeAll g ds).regions = c'.regions := by
  induction h with
  | refl => exact hr
  | tail _ step ih =>
      rw [Sight.seeAll_append]
      exact step.regions_seen ih

/-- A calm run keeps what is seen, and shows it to those who read. -/
theorem Steps.agrees (h : Steps c ds c') (hs : c.Sound) (hg : c.Guarded fun _ => False)
    (hc : c.Calm) (agrees : g.Agrees c.looks c.files) (opens : g.OpensAll ds) :
    (Deed.seeAll g ds).Agrees c'.looks c'.files ∧ g.ShowsAll ds := by
  induction h with
  | refl => exact ⟨agrees, trivial⟩
  | tail run step ih =>
      obtain ⟨hopens, hopens'⟩ := Sight.opensAll_append.1 opens
      obtain ⟨hagrees, hshows⟩ := ih hopens
      have hmove := step.move (run.sound hs) fun _ => run.guarded_of_calm hs hc hg
      obtain ⟨hagrees', hshows'⟩ := hagrees.move hmove hopens'
      rw [Sight.seeAll_append]
      exact ⟨hagrees', Sight.showsAll_append.2 ⟨hshows, hshows'⟩⟩

end Core

end DemandPaging
