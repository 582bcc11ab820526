import DemandPaging.Proofs.MappedFiles
import DemandPaging.Proofs.Snapshots

/-!
Reads of a file that fall short. A page that is filled by such a read has zeros where the file has
more, and counts as the whole range of the file all the same. Once the page is written to anywhere,
the zeros go back to the file with it, over bytes that nobody wrote to.
-/

namespace DemandPaging

open DemandPaging.Core
open Function (update)

/-- No initializer makes what the page is to show of this byte of a file. -/
def PageKind.Plain (id : FileId) (k : Nat) (kind : PageKind) : Prop :=
  ∀ backing init, kind = .uninit (.file backing) (some init) →
    ∀ i, backing.place i ≠ some (id, k)

/-- Deeds that neither write to a byte of a file, by way of a page that shows it, nor let others do
so. -/
def Deed.Leaves (P : Places) (id : FileId) (k : Nat) : Deed → Prop
  | add _ page => page.kind.Plain id k
  | write ref offset bytes => ∀ i, offset ≤ i → i < offset + bytes.size → P ref i ≠ some (id, k)
  | share _ _ _ => False
  | _ => True

def Deed.KeepsPlaces : Deed → Prop
  | add _ page => page.kind.window = none
  | share _ _ _ | drop _ => False
  | _ => True

/-- All of them leave the byte alone. Whether a write does is up to what the pages show at first, so
where there are writes the pages go on showing that. -/
structure Deed.AllLeave (P : Places) (id : FileId) (k : Nat) (ds : List Deed) : Prop where
  leaves : ∀ d ∈ ds, d.Leaves P id k
  keeps : (∃ d ∈ ds, d.IsWrite) → ∀ d ∈ ds, d.KeepsPlaces

theorem FileFace.Delivers.getElem? {face : FileFace} {offset count i : Nat} {got : Array UInt8}
    (h : face.Delivers offset count got) (hi : i < got.size) :
    got[i]? = face.data[offset + i]? := by
  obtain ⟨j, rfl⟩ := h
  rw [Array.size_extract] at hi
  rw [Array.getElem?_extract, if_pos (by omega)]

/-- The file has a byte in this place, and wherever the byte is, in the file or in memory, it has
one of these values. -/
structure Bears (V : UInt8 → Prop) (id : FileId) (k : Nat) (L : Looks) (F : Files) : Prop where
  disk : ∃ v, (F id).data[k]? = some v ∧ V v
  memory : ∀ ref look bytes i, L ref = some look → look.content = some bytes →
    look.kind.place i = some (id, k) → V (bytes.byteAt i)
  plain : ∀ ref look, L ref = some look → look.kind.Plain id k

namespace Bears

variable {V V' : UInt8 → Prop} {id : FileId} {k i moved : Nat} {L L' : Looks} {F F' : Files}
  {ds : List Deed} {ref : PageRef} {look look' : Look} {backing : FileBacking} {bytes : PageBytes}
  {writable : Bool}

theorem inside (h : Bears V id k L F) : k < (F id).data.size := by
  obtain ⟨v, hv, -⟩ := h.disk
  exact (Array.getElem?_eq_some_iff.1 hv).1

theorem mono (h : Bears V id k L F) (sub : ∀ v, V v → V' v) : Bears V' id k L F := by
  obtain ⟨⟨v, hdisk, hv⟩, hmemory, hplain⟩ := h
  exact ⟨⟨v, hdisk, sub v hv⟩, fun ref look bytes i found content place =>
    sub _ (hmemory ref look bytes i found content place), hplain⟩

theorem files (h : Bears V id k L F) (disk : ∃ v, (F' id).data[k]? = some v ∧ V v) :
    Bears V id k L F' :=
  ⟨disk, h.memory, h.plain⟩

theorem replace (h : Bears V id k L F) (plain : look'.kind.Plain id k)
    (memory : ∀ bytes i, look'.content = some bytes → look'.kind.place i = some (id, k) →
      V (bytes.byteAt i)) : Bears V id k (update L ref (some look')) F := by
  refine ⟨h.disk, fun r l b i found content place => ?_, fun r l found => ?_⟩
  · rcases Looks.update_some found with ⟨rfl, rfl⟩ | ⟨-, found⟩
    · exact memory b i content place
    · exact h.memory r l b i found content place
  · rcases Looks.update_some found with ⟨rfl, rfl⟩ | ⟨-, found⟩
    · exact plain
    · exact h.plain r l found

theorem erase (h : Bears V id k L F) : Bears V id k (update L ref none) F := by
  have old {r : PageRef} {l : Look} (found : update L ref none r = some l) : L r = some l := by
    by_cases hr : r = ref
    · subst hr
      rw [Function.update_self] at found
      exact nomatch found
    · exact (Function.update_of_ne hr _ _).symm.trans found
  exact ⟨h.disk, fun r l b i found => h.memory r l b i (old found), fun r l found =>
    h.plain r l (old found)⟩

theorem putBack (h : Bears V id k L F) (found : L ref = some look)
    (kind : look.kind = .file backing) (content : look.content = some bytes) :
    ∃ v, (F.putBack backing bytes moved id).data[k]? = some v ∧ V v := by
  rw [Files.getElem?_putBack h.inside]
  split
  · next hplace =>
      obtain ⟨i, -, hplace⟩ := hplace
      have hoff := (Prod.mk.inj (FileBacking.place_eq_some.1 hplace).2).2
      refine ⟨_, rfl, ?_⟩
      rw [hoff, Nat.add_sub_cancel_left]
      refine h.memory ref look bytes i found content ?_
      rw [kind]
      exact hplace
  · exact h.disk

theorem fill {kind kind' : PageKind} (h : Bears V id k L F)
    (found : L ref = some ⟨kind, writable, none, false⟩) (loads : Loads F kind kind' bytes)
    (short : ∀ backing i got, kind.window = some backing → backing.place i = some (id, k) →
      (F id).Delivers backing.offset backing.readBytes got → got.size ≤ i →
      bytes = PageBytes.ofArray got → V 0) :
    Bears V id k (update L ref (some ⟨kind', writable, some bytes, false⟩)) F := by
  have read {b : FileBacking} {got : Array UInt8} {i : Nat} (window : kind.window = some b)
      (hplace : b.place i = some (id, k)) (hbytes : bytes = PageBytes.ofArray got)
      (got_of : (F b.file).Delivers b.offset b.readBytes got) : V (bytes.byteAt i) := by
    obtain ⟨hi, heq⟩ := FileBacking.place_eq_some.1 hplace
    obtain ⟨hfile, hoff⟩ := Prod.mk.inj heq
    rw [← hfile] at got_of
    rw [hbytes, PageBytes.byteAt_ofArray (Nat.lt_of_lt_of_le hi b.readBytes_le)]
    by_cases hgot : i < got.size
    · obtain ⟨v, hdisk, hv⟩ := h.disk
      rw [got_of.getElem? hgot, ← hoff, hdisk]
      exact hv
    · rw [Array.getElem?_eq_none (by omega)]
      exact short b i got window hplace got_of (by omega) hbytes
  refine h.replace (fun b init hk => ?_) fun page i hpage hplace => ?_
  · have hused := PageKind.used_loads loads
    rw [show kind' = _ from hk] at hused
    exact nomatch hused
  · cases hpage
    cases loads with
    | anon anon => exact nomatch hplace
    | file got_of | newFile got_of => exact read rfl hplace rfl got_of
    | made => exact (h.plain ref _ found _ _ rfl i hplace).elim

theorem move (h : Bears V id k L F) (move : Move L F ds L' F')
    (leaves : ∀ d ∈ ds, d.Leaves L.places id k) (sub : ∀ v, V v → V' v)
    (short : ∀ ref look backing i got, L ref = some look → look.content = none →
      look.kind.window = some backing → backing.place i = some (id, k) →
      (F id).Delivers backing.offset backing.readBytes got → got.size ≤ i →
      (L' ref).bind Look.content = some (PageBytes.ofArray got) → V' 0) : Bears V' id k L' F' := by
  have h' := h.mono sub
  cases move with
  | still | chart | read => exact h'
  | add => exact h'.replace (leaves _ List.mem_cons_self) nofun
  | spoil found => exact h'.files (h'.putBack found rfl rfl)
  | evict found saved =>
      cases saved with
      | anon | clean => exact h'.replace nofun nofun
      | dirty => exact (h'.files (h'.putBack found rfl rfl)).replace nofun nofun
  | @fill ref _ _ _ _ _ found loads =>
      refine h'.fill found loads fun b i got window place got_of hgot hbytes => ?_
      refine short ref _ b i got found rfl window place got_of hgot ?_
      rw [Function.update_self, Option.bind_some, hbytes]
  | fail found =>
      refine h'.replace (fun b init hk => ?_) nofun
      cases hk
      exact h.plain _ _ found b _ rfl
  | @lose ref look found =>
      have plain : look.kind.Plain id k := h.plain ref look found
      exact h'.replace plain nofun
  | share => exact (leaves _ List.mem_cons_self).elim
  | @write ref kind dirty page offset new found =>
      have plain : kind.Plain id k := h.plain ref _ found
      refine h'.replace plain fun b i hb hplace => ?_
      cases hb
      have hi : i < pageSize := by
        obtain ⟨backing, -, hi, -⟩ := PageKind.place_eq_some.1 hplace
        exact Nat.lt_of_lt_of_le hi backing.readBytes_le
      have hold := h'.memory ref _ page i found rfl hplace
      -- the bytes of the write go elsewhere
      have hapart : ¬ (offset ≤ i ∧ i < offset + new.size) := by
        rintro ⟨hle, hlt⟩
        refine leaves _ List.mem_cons_self i hle hlt ?_
        rw [Looks.places_found found]
        exact hplace
      have hsame := @PageBytes.some_byteAt_patch page offset i new hi
      rw [if_neg hapart] at hsame
      rw [Option.some.inj hsame]
      exact hold
  | drop => exact h'.erase
  | dropWriting found => exact (h'.files (h'.putBack found rfl rfl)).erase

end Bears

theorem Move.places {L L' : Looks} {F F' : Files} {ds : List Deed} (move : Move L F ds L' F')
    (keeps : ∀ d ∈ ds, d.KeepsPlaces) : L'.places = L.places := by
  cases move with
  | still | chart | spoil | read => rfl
  | @add ref writable kind vacant =>
      have hwindow : kind.window = none := keeps _ List.mem_cons_self
      funext r i
      unfold Looks.places
      by_cases hr : r = ref
      · subst hr
        rw [Function.update_self, vacant, Option.bind_some, PageKind.place, hwindow]
        rfl
      · rw [Function.update_of_ne hr]
  | evict found saved => exact Looks.places_update found (PageKind.window_saved saved)
  | fill found loads => exact Looks.places_update found (PageKind.window_loads loads)
  | @fail _ target _ _ _ found => exact Looks.places_update found (by cases target <;> rfl)
  | lose found => exact Looks.places_update found rfl
  | write found => exact Looks.places_update found rfl
  | share | drop | dropWriting => exact (keeps _ List.mem_cons_self).elim

theorem Move.keeps_byte {L L' : Looks} {F F' : Files} {ds : List Deed} {id : FileId} {k : Nat}
    (move : Move L F ds L' F') (hk : k < (F id).data.size) :
    (F' id).data[k]? = (F id).data[k]? ∨ ∃ ref writable backing bytes i moved,
      L ref = some ⟨.file backing, writable, some bytes, true⟩ ∧ backing.place i = some (id, k) ∧
        i < moved ∧ F' = F.putBack backing bytes moved := by
  have put {backing : FileBacking} {bytes : PageBytes} {moved : Nat} :
      (F.putBack backing bytes moved id).data[k]? = (F id).data[k]? ∨
        ∃ i < moved, backing.place i = some (id, k) := by
    by_cases hplace : ∃ i < moved, backing.place i = some (id, k)
    · exact .inr hplace
    · rw [Files.getElem?_putBack hk, if_neg hplace]
      exact .inl rfl
  cases move with
  | spoil found =>
      exact put.imp_right fun ⟨i, hi, place⟩ => ⟨_, _, _, _, i, _, found, place, hi, rfl⟩
  | evict found saved =>
      cases saved with
      | anon | clean => exact .inl rfl
      | dirty =>
          exact put.imp_right fun ⟨i, hi, place⟩ => ⟨_, _, _, _, i, _, found, place, hi, rfl⟩
  | dropWriting found =>
      exact put.imp_right fun ⟨i, hi, place⟩ => ⟨_, _, _, _, i, _, found, place, hi, rfl⟩
  | _ => exact .inl rfl

namespace Core

/-- A page that was written to is written back, and with it this value for the byte of the file. -/
inductive Stores (id : FileId) (k : Nat) (hop : Core × Core) (byte : UInt8) : Prop where
  | back {ref : PageRef} {writable : Bool} {backing : FileBacking} {bytes : PageBytes}
      {i moved : Nat}
      (found : hop.1.looks ref = some ⟨.file backing, writable, some bytes, true⟩)
      (place : backing.place i = some (id, k)) (reached : i < moved)
      (files : hop.2.files = Files.putBack hop.1.files backing bytes moved)
      (byte_of : bytes.byteAt i = byte)

/-- A page is filled by a read that ends before the byte, although the file has it. -/
inductive FallsShort (id : FileId) (k : Nat) (hop : Core × Core) : Prop where
  | read {ref : PageRef} {look : Look} {backing : FileBacking} {i : Nat} {got : Array UInt8}
      (found : hop.1.looks ref = some look) (away : look.content = none)
      (window : look.kind.window = some backing) (place : backing.place i = some (id, k))
      (has : k < (hop.1.files id).data.size)
      (got_of : (hop.1.files id).Delivers backing.offset backing.readBytes got)
      (short : got.size ≤ i) (filled : hop.2.held? ref = some (PageBytes.ofArray got))

/-- Where the byte has a value other than this one, it is zero, and some page was filled short of
it. -/
def Explains (id : FileId) (k : Nat) (b : UInt8) (hops : List (Core × Core)) (v : UInt8) : Prop :=
  v = b ∨ (v = 0 ∧ ∃ hop ∈ hops, FallsShort id k hop)

structure Accounts (id : FileId) (k : Nat) (b : UInt8) (hops : List (Core × Core)) (c : Core) :
    Prop where
  bears : Bears (Explains id k b hops) id k c.looks c.files
  stored : ∀ earlier hop later, hops = earlier ++ hop :: later → ∀ byte, Stores id k hop byte →
    Explains id k b earlier byte
  kept_iff : (∀ hop ∈ hops, (hop.2.files id).data[k]? = some b) ↔
    ∀ hop ∈ hops, ∀ byte, Stores id k hop byte → byte = b
  last : (∀ hop ∈ hops, (hop.2.files id).data[k]? = some b) → (c.files id).data[k]? = some b

variable {c c' : Core} {id : FileId} {k : Nat} {b byte : UInt8} {ds : List Deed}
  {hop : Core × Core} {hops new : List (Core × Core)}

theorem Explains.later (h : Explains id k b hops byte) : Explains id k b (hops ++ new) byte :=
  h.imp_right fun ⟨hv, hop, hmem, hshort⟩ => ⟨hv, hop, List.mem_append_left _ hmem, hshort⟩

theorem Stores.put (h : Stores id k hop byte) (hk : k < (hop.1.files id).data.size) :
    (hop.2.files id).data[k]? = some byte := by
  obtain ⟨-, place, reached, files, rfl⟩ := h
  have hoff := (Prod.mk.inj (FileBacking.place_eq_some.1 place).2).2
  rw [files, Files.getElem?_putBack hk, if_pos ⟨_, reached, place⟩, hoff, Nat.add_sub_cancel_left]

theorem Accounts.start (holds : (c.files id).data[k]? = some b)
    (apart : ∀ ref i, c.looks.places ref i ≠ some (id, k)) : Accounts id k b [] c := by
  have nowhere {ref : PageRef} {look : Look} {i : Nat} (found : c.looks ref = some look) :
      look.kind.place i ≠ some (id, k) := by
    intro hplace
    refine apart ref i ?_
    rw [Looks.places_found found]
    exact hplace
  refine ⟨⟨⟨b, holds, .inl rfl⟩, fun ref look bytes i found _ place =>
    (nowhere found place).elim, fun ref look found backing init kind i place => ?_⟩,
    fun earlier hop later heq => ?_, ⟨nofun, nofun⟩, fun _ => holds⟩
  · refine nowhere (i := i) found ?_
    rw [kind]
    exact place
  · simp at heq

theorem Accounts.goes (h : Accounts id k b hops c)
    (bears : Bears (Explains id k b (hops ++ [(c, c')])) id k c'.looks c'.files)
    (keeps : (c'.files id).data[k]? = (c.files id).data[k]? ∨ ∃ byte, Stores id k (c, c') byte) :
    Accounts id k b (hops ++ [(c, c')]) c' := by
  obtain ⟨hbears, hstored, hiff, hlast⟩ := h
  have hsize : k < (c.files id).data.size := hbears.inside
  have new (hbefore : (c.files id).data[k]? = some b) : (c'.files id).data[k]? = some b ↔
      ∀ byte, Stores id k (c, c') byte → byte = b := by
    constructor
    · intro hkept byte hstores
      exact Option.some.inj ((hstores.put hsize).symm.trans hkept)
    · intro hall
      rcases keeps with hsame | ⟨byte, hstores⟩
      · exact hsame.trans hbefore
      · rw [hstores.put hsize, hall byte hstores]
  refine ⟨bears, fun earlier hop later heq byte hstores => ?_, ?_, fun h => ?_⟩
  · rcases later.eq_nil_or_concat with rfl | ⟨later, x, rfl⟩
    · obtain ⟨rfl, hone⟩ := List.append_inj' heq rfl
      cases hone
      obtain ⟨found, place, -, -, rfl⟩ := hstores
      exact hbears.memory _ _ _ _ found rfl place
    · rw [List.concat_eq_append, ← List.cons_append, ← List.append_assoc] at heq
      exact hstored earlier hop later (List.append_inj' heq rfl).1 byte hstores
  · simp only [List.forall_mem_append, List.forall_mem_singleton]
    refine ⟨fun ⟨hall, hone⟩ => ?_, fun ⟨hall, hone⟩ => ?_⟩
    · exact ⟨hiff.1 hall, (new (hlast hall)).1 hone⟩
    · exact ⟨hiff.2 hall, (new (hlast (hiff.2 hall))).2 hone⟩
  · exact h _ (List.mem_append_right _ List.mem_cons_self)

theorem Accounts.step (h : Accounts id k b hops c) (step : Step c ds c') (hs : c.Sound)
    (hg : c.Guarded fun _ => False) (leaves : ∀ d ∈ ds, d.Leaves c.looks.places id k) :
    Accounts id k b (hops ++ [(c, c')]) c' := by
  have hmove := step.move hs fun _ => hg
  have hsize : k < (c.files id).data.size := h.bears.inside
  refine h.goes (h.bears.move hmove leaves (fun v => .later) ?_) ?_
  · intro ref look backing i got found away window place got_of short filled
    refine .inr ⟨rfl, (c, c'), List.mem_append_right _ List.mem_cons_self, ?_⟩
    exact .read found away window place hsize got_of short filled
  · refine (hmove.keeps_byte hsize).imp_right ?_
    rintro ⟨ref, writable, backing, bytes, i, moved, found, place, reached, files⟩
    exact ⟨_, .back found place reached files rfl⟩

theorem Steps.guarded_alone (h : Steps c ds c') (hs : c.Sound) (hg : c.Guarded fun _ => False)
    {P : Places} (leaves : ∀ d ∈ ds, d.Leaves P id k) : c'.Guarded fun _ => False :=
  h.guarded hs (fun _ _ _ hd => (leaves _ hd).elim) hg

theorem Trail.places (h : Trail c new ds c') (hs : c.Sound) (hg : c.Guarded fun _ => False)
    {P : Places} (leaves : ∀ d ∈ ds, d.Leaves P id k) (keeps : ∀ d ∈ ds, d.KeepsPlaces) :
    c'.looks.places = c.looks.places := by
  induction h with
  | start => rfl
  | step before step ih =>
      rw [List.forall_mem_append] at leaves keeps
      have hmove := step.move (before.steps.sound hs) fun _ =>
        before.steps.guarded_alone hs hg leaves.1
      exact (hmove.places keeps.2).trans (ih leaves.1 keeps.1)

theorem Trail.accounts (h : Trail c new ds c') (hs : c.Sound) (hg : c.Guarded fun _ => False)
    (all : Deed.AllLeave c.looks.places id k ds) (accounts : Accounts id k b hops c) :
    Accounts id k b (hops ++ new) c' := by
  induction h with
  | start =>
      rw [List.append_nil]
      exact accounts
  | @step c₁ c₂ new ds es before step ih =>
      obtain ⟨leaves, keeps⟩ := all
      rw [List.forall_mem_append] at leaves
      have hall : Deed.AllLeave c.looks.places id k ds := ⟨leaves.1, fun ⟨d, hd, hw⟩ e he =>
        keeps ⟨d, List.mem_append_left _ hd, hw⟩ e (List.mem_append_left _ he)⟩
      have hg₁ := before.steps.guarded_alone hs hg leaves.1
      rw [← List.append_assoc]
      refine (ih hall).step step (before.steps.sound hs) hg₁ fun d hd => ?_
      by_cases hw : d.IsWrite
      · -- what the pages show has not changed since the request came
        have hkeeps := keeps ⟨d, List.mem_append_right _ hd, hw⟩
        rw [before.places hs hg leaves.1 fun e he => hkeeps e (List.mem_append_left _ he)]
        exact leaves.2 d hd
      · have hd' := leaves.2 d hd
        cases d with
        | write => exact (hw trivial).elim
        | _ => exact hd'

end Core

def TargetRequest.Shows (id : FileId) (k : Nat) : TargetRequest → Prop
  | anon => False
  | file i offset count => i = id ∧ offset ≤ k ∧ k < offset + count

/-- Requests by which nobody writes to this byte of a file. Pages may be copied to no other space,
and nobody else changes entries; files may be changed apart from this byte. -/
def Operation.Leaves (id : FileId) (k : Nat) (m : Machine) : Operation → Prop
  | fork _ _ _ | setDirty _ _ _ | dropMapping _ _ | locked _ _ _ => False
  | declare _ _ _ target (some _) | insert _ _ _ (.uninit target (some _)) => ¬ target.Shows id k
  | write s va bytes _ =>
      ∀ x ∈ ByteAt.along s va bytes.toList, m.places x.ref x.offset ≠ some (id, k)
  | configureFile i settings => i = id → settings.data = none
  | _ => True

theorem TargetRequest.Names.plain {id : FileId} {k : Nat} {c : Core} {request : TargetRequest}
    {target : PageTarget} {init : Option Initializer} {made : Option InitializerRequest}
    (names : request.Names target) (init_of : InitializerRequest.NamesAll c made init)
    (leaves : made ≠ none → ¬ request.Shows id k) : (PageKind.uninit target init).Plain id k := by
  intro backing i hkind j hplace
  cases hkind
  cases made with
  | none => exact nomatch init_of
  | some made =>
      refine leaves nofun ?_
      cases request with
      | anon => exact nomatch names
      | file file offset count =>
          obtain ⟨b, hb, rfl, rfl, rfl⟩ := names
          cases hb
          obtain ⟨hj, heq⟩ := FileBacking.place_eq_some.1 hplace
          obtain ⟨rfl, rfl⟩ := Prod.mk.inj heq
          exact ⟨rfl, Nat.le_add_right _ _, Nat.add_lt_add_left hj _⟩

namespace Deed

variable {d : Deed} {ds : List Deed} {P : Places} {id : FileId} {k : Nat} {ref : PageRef}
  {s : SpaceId}

theorem AllLeave.quiet (h : ∀ d ∈ ds, d.Leaves P id k ∧ ¬ d.IsWrite) : AllLeave P id k ds :=
  ⟨fun d hd => (h d hd).1, fun ⟨d, hd, hw⟩ => ((h d hd).2 hw).elim⟩

theorem Faults.leaves (h : d.Faults ref) : d.Leaves P id k ∧ ¬ d.IsWrite := by
  rcases h with (h | rfl) | rfl
  · cases d with
    | make | fail => exact ⟨trivial, not_false⟩
    | _ => exact h.elim
  · exact ⟨trivial, not_false⟩
  · exact ⟨nofun, not_false⟩

theorem Faults.keepsPlaces (h : d.Faults ref) : d.KeepsPlaces := by
  rcases h with (h | rfl) | rfl
  · cases d with
    | make | fail => trivial
    | _ => exact h.elim
  · trivial
  · rfl

theorem Clears.leaves {regions : Table PageRef Nat} (h : d.Clears regions s) :
    d.Leaves P id k ∧ ¬ d.IsWrite := by
  rcases h with ⟨vpn, rfl⟩ | rfl <;> exact ⟨trivial, not_false⟩

end Deed

namespace ByteAt

theorem along_subset {s : SpaceId} {va : VirtAddr} {xs ys : List UInt8} (h : xs <+: ys) :
    along s va xs ⊆ along s va ys := by
  obtain ⟨rest, rfl⟩ := h
  rw [along_append]
  exact List.subset_append_left _ _

end ByteAt

namespace MapRequest

variable {r : MapRequest} {va : VirtAddr} {c c' : Core} {P : Places} {id : FileId} {k : Nat}
  {d : Deed} {ds : List Deed} {result : Except Errno VirtAddr}

theorem Serves.leaves (h : r.Serves va c c' result ds) (hd : d ∈ ds) :
    d.Leaves P id k ∧ ¬ d.IsWrite := by
  have added {n : Nat} (hd : d ∈ r.adds n 0) : d.Leaves P id k ∧ ¬ d.IsWrite := by
    obtain ⟨j, -, -, rfl⟩ := mem_adds.1 hd
    exact ⟨nofun, not_false⟩
  cases h with
  | mapped =>
      rcases List.mem_append.1 hd with hd | hd
      · exact added hd
      · rw [List.mem_singleton.1 hd]
        exact ⟨trivial, not_false⟩
  | refused _ _ undone =>
      rcases List.mem_append.1 hd with hd | hd
      · exact added hd
      · obtain ⟨j, -, rfl⟩ := undone d hd
        exact ⟨trivial, not_false⟩

end MapRequest

namespace Operation

variable {m : Machine} {c c' : Core} {op : Operation} {a : Answer} {ds : List Deed} {id : FileId}
  {k : Nat}

theorem Leaves.proper (h : op.Leaves id k m) : op.Proper := by
  cases op with
  | fork | setDirty | dropMapping | locked => exact h.elim
  | _ => trivial

theorem Leaves.whole (h : op.Leaves id k m) : op.wrecks a = false := by
  cases op with
  | fork => exact h.elim
  | _ => rfl

theorem Leaves.declares {s : SpaceId} {va : VirtAddr} {writable : Bool} {target : TargetRequest}
    {init : Option InitializerRequest} {t : PageTarget} {i : Option Initializer}
    (hop : (declare s va writable target init).Leaves id k m) (target_of : target.Names t)
    (init_of : InitializerRequest.NamesAll c init i) : (PageKind.uninit t i).Plain id k := by
  refine target_of.plain init_of fun hinit => ?_
  cases init with
  | none => exact (hinit rfl).elim
  | some => exact hop

theorem Leaves.inserts {s : SpaceId} {va : VirtAddr} {writable : Bool} {request : KindRequest}
    {kind : PageKind} (hop : (insert s va writable request).Leaves id k m)
    (kind_of : request.Names c kind) : kind.Plain id k := by
  cases request with
  | anon =>
      cases kind_of
      exact nofun
  | file =>
      obtain ⟨backing, rfl, -⟩ := kind_of
      exact nofun
  | uninit target init =>
      obtain ⟨t, i, rfl, target_of, init_of⟩ := kind_of
      refine target_of.plain init_of fun hinit => ?_
      cases init with
      | none => exact (hinit rfl).elim
      | some => exact hop

theorem Leaves.writes {s : SpaceId} {va sp : VirtAddr} {bytes : Array UInt8} {taken : List UInt8}
    (hop : (write s va bytes sp).Leaves id k m)
    (writes : ∀ d ∈ ds, d.Writes s (va.Spans bytes.size))
    (stores : Deed.allStores ds = ByteAt.along s va taken) (some_of : taken <+: bytes.toList) :
    Deed.AllLeave m.places id k ds := by
  refine ⟨fun d hd => ?_, fun _ d hd => ?_⟩
  · obtain ⟨va, -, hf | ⟨bytes, rfl⟩⟩ := writes d hd
    · exact hf.leaves.1
    · intro i hle hlt
      -- the byte that goes to this offset is one of those of the request
      have hbyte : bytes.toList[i - va.pageOffset]? = some bytes[i - va.pageOffset] := by
        rw [Array.getElem?_toList, Array.getElem?_eq_getElem]
      have hmem : _ ∈ Deed.allStores ds :=
        List.mem_flatMap.2 ⟨_, hd, ByteAt.row_mem hbyte⟩
      rw [stores, Nat.add_sub_cancel' hle] at hmem
      exact hop _ (ByteAt.along_subset some_of hmem)
  · obtain ⟨va, -, hf | ⟨bytes, rfl⟩⟩ := writes d hd
    · exact hf.keepsPlaces
    · trivial

theorem Does.leaves (h : Does c c' op a ds) (hop : op.Leaves id k m) :
    Deed.AllLeave m.places id k ds := by
  cases h with
  | looked | notDeclared | notInserted | notRemoved => exact .quiet nofun
  | declared target_of init_of =>
      exact .quiet (List.forall_mem_singleton.2 ⟨hop.declares target_of init_of, not_false⟩)
  | inserted kind_of => exact .quiet (List.forall_mem_singleton.2 ⟨hop.inserts kind_of, not_false⟩)
  | claimed settles => exact .quiet fun d hd => Deed.Faults.leaves (.inl (.inl (settles d hd)))
  | removed => exact .quiet (List.forall_mem_singleton.2 ⟨trivial, not_false⟩)
  | mapped serves => exact .quiet fun d hd => serves.leaves hd
  | unmapped unmaps =>
      cases unmaps with
      | unmapped _ _ drops_of =>
          refine .quiet (List.forall_mem_cons.2 ⟨⟨trivial, not_false⟩, fun d hd => ?_⟩)
          obtain ⟨j, -, rfl⟩ := drops_of d hd
          exact ⟨trivial, not_false⟩
      | refused => exact .quiet nofun
  | faulted faults => exact .quiet fun d hd => (faults d hd).leaves
  | read reads =>
      refine .quiet fun d hd => ?_
      obtain ⟨va, -, hf | ⟨bytes, rfl⟩⟩ := reads d hd
      · exact hf.leaves
      · exact ⟨trivial, not_false⟩
  | wrote writes stores some_of => exact hop.writes writes stores some_of
  | forked | notForked => exact hop.elim
  | tornDown clears | exited clears => exact .quiet fun d hd => (clears d hd).leaves

theorem Leaves.outside {held : List PageRef} {m' : Machine} (hop : op.Leaves id k m)
    (outside : op.Outside) (answered : op.perform { m with held } = .ok a m') :
    m'.core.looks = m.core.looks ∧ (m'.core.files id).data = (m.core.files id).data := by
  cases op with
  | setInstalls s installs =>
      obtain ⟨_, m₁, h₁, h⟩ := bind_ok.1 answered
      obtain ⟨rfl, rfl⟩ := pure_ok.1 h
      obtain rfl := modify_ok.1 h₁
      exact ⟨rfl, rfl⟩
  | configureFile i settings =>
      obtain ⟨_, m₁, h₁, h⟩ := bind_ok.1 answered
      obtain ⟨rfl, rfl⟩ := pure_ok.1 h
      rw [(useFile_core h₁).2]
      refine ⟨rfl, ?_⟩
      by_cases hi : id = i
      · subst hi
        have hdata : settings.data = none := hop rfl
        simp only [Core.setFile, Function.update_self, File.face, FileSettings.apply, hdata,
          Option.getD_none]
        rfl
      · simp only [Core.setFile, Function.update_of_ne hi]
        rfl
  | _ => exact outside.elim

end Operation

/-- A run in which nobody writes to this byte of a file, with each step of the pager and each change
from outside on the way. -/
inductive Leaving (id : FileId) (k : Nat) (m : Machine) :
    List Exchange → List (Core × Core) → Machine → Prop
  | start : Leaving id k m [] [] m
  | served {m₁ m' : Machine} {log : List Exchange} {hops new : List (Core × Core)} {ds : List Deed}
      {op : Operation} {a : Answer} (held : List PageRef) (before : Leaving id k m log hops m₁)
      (leaves : op.Leaves id k m₁) (answered : op.perform { m₁ with held } = .ok a m')
      (trail : Trail m₁.core new ds m'.core) (does : op.Does m₁.core m'.core a ds) :
      Leaving id k m (log ++ [(op, a)]) (hops ++ new) m'
  | changed {m₁ m' : Machine} {log : List Exchange} {hops : List (Core × Core)} {op : Operation}
      {a : Answer} (held : List PageRef) (before : Leaving id k m log hops m₁)
      (leaves : op.Leaves id k m₁) (outside : op.Outside)
      (answered : op.perform { m₁ with held } = .ok a m') :
      Leaving id k m (log ++ [(op, a)]) (hops ++ [(m₁.core, m'.core)]) m'

variable {m m' : Machine} {log earlier : List Exchange} {hops : List (Core × Core)} {id : FileId}
  {k : Nat} {b : UInt8}

theorem Run.leaving (run : Run (Operation.Leaves id k) m log m') (h : m.Settled) :
    ∃ hops, Leaving id k m log hops m' := by
  induction run with
  | nil => exact ⟨[], .start⟩
  | turn run turn all ih =>
      obtain ⟨hops, leaving⟩ := ih
      have settled := run.settled (fun _ _ hop => hop.proper) h
      cases turn with
      | served held whole answered =>
          have hop := all _ List.mem_cons_self
          rcases hop.proper.split with hregular | houtside
          · obtain ⟨ds, steps, does⟩ := Operation.perform_held hregular settled.sound answered
            obtain ⟨new, trail⟩ := steps.trail
            exact ⟨_, leaving.served held hop answered trail does⟩
          · exact ⟨_, leaving.changed held hop houtside answered⟩
      | undone => exact (all _ List.mem_cons_self).elim

theorem Leaving.settled (h : Leaving id k m log hops m') (settled : m.Settled) : m'.Settled := by
  induction h with
  | start => exact settled
  | served held _ leaves answered _ _ ih =>
      exact ih.served leaves.proper leaves.whole answered
  | changed held _ leaves _ answered ih =>
      exact ih.served leaves.proper leaves.whole answered

theorem Leaving.accounts (h : Leaving id k m log hops m') (settled : m.Settled)
    (start : Accounts id k b [] m.core) : Accounts id k b hops m'.core := by
  induction h with
  | start => exact start
  | served held before leaves _ trail does ih =>
      obtain ⟨hs, hg⟩ := before.settled settled
      refine trail.accounts hs hg ?_ ih
      rw [Machine.looks_places]
      exact does.leaves leaves
  | @changed m₁ m' _ hops _ _ held before leaves outside answered ih =>
      obtain ⟨looks, data⟩ := leaves.outside outside answered
      refine ih.goes ?_ (.inl (congrArg (·[k]?) data))
      rw [looks]
      obtain ⟨v, hdisk, hv⟩ := ih.bears.disk
      refine (ih.bears.files ⟨v, ?_, hv⟩).mono fun v => .later
      rw [data]
      exact hdisk

/-- A byte of a file that nobody writes to, by way of a page or otherwise, keeps its value exactly
if no page is written back with another one. What is written back in its place is the byte or, after
a page was filled by a read that ended before it, zero. So the byte is safe from reads that deliver
it; and if it is lost, it has become zero. -/
theorem unwritten_byte_kept_iff {frames : Nat} {sectors : Option Nat} {files : List File}
    {allocator : Allocator}
    (reached : Run (fun _ => Operation.Proper) (.fresh frames sectors files allocator) earlier m)
    (apart : ∀ ref i, m.places ref i ≠ some (id, k)) (holds : (m.file id).data[k]? = some b)
    (run : Run (Operation.Leaves id k) m log m') :
    (∃ hops, Leaving id k m log hops m') ∧ ∀ hops, Leaving id k m log hops m' →
      ((∀ hop ∈ hops, (hop.2.files id).data[k]? = some b) ↔
        ∀ hop ∈ hops, ∀ byte, Stores id k hop byte → byte = b) ∧
      (∀ earlier hop later, hops = earlier ++ hop :: later → ∀ byte, Stores id k hop byte →
        byte = b ∨ (byte = 0 ∧ ∃ before ∈ earlier, FallsShort id k before)) ∧
      ((∀ hop ∈ hops, ¬ FallsShort id k hop) →
        (∀ hop ∈ hops, (hop.2.files id).data[k]? = some b) ∧ (m'.file id).data[k]? = some b) ∧
      ((m'.file id).data[k]? = some b ∨ (m'.file id).data[k]? = some 0) := by
  have settled := reached.settled (fun _ _ h => h) (Machine.fresh_settled frames sectors files allocator)
  refine ⟨run.leaving settled, fun hops leaving => ?_⟩
  have start : Accounts id k b [] m.core := by
    refine .start holds fun ref i => ?_
    rw [m.looks_places]
    exact apart ref i
  obtain ⟨hbears, hstored, hiff, hlast⟩ := leaving.accounts settled start
  refine ⟨hiff, hstored, fun whole => ?_, ?_⟩
  · have hkept : ∀ hop ∈ hops, (hop.2.files id).data[k]? = some b := by
      refine hiff.2 fun hop hmem byte hstores => ?_
      obtain ⟨earlier, later, rfl⟩ := List.append_of_mem hmem
      rcases hstored earlier hop later rfl byte hstores with hbyte | ⟨-, before, hbefore, hshort⟩
      · exact hbyte
      · exact (whole before (List.mem_append_left _ hbefore) hshort).elim
    exact ⟨hkept, hlast hkept⟩
  · obtain ⟨v, hdisk, rfl | ⟨rfl, -⟩⟩ := hbears.disk
    · exact .inl hdisk
    · exact .inr hdisk

def File.slow (data : Array UInt8) : File :=
  { File.ofData data false with readCaps := .always (some 1) }

/-- The first of three bytes is written to by way of a page. When the region is unmapped, the other
two have become zero. -/
theorem unwritten_byte_lost : ∃ log m hops,
    Run (fun _ => Operation.Proper) (.fresh 1 none [.slow #[1, 2, 3]]) []
        (.fresh 1 none [.slow #[1, 2, 3]]) ∧
      (∀ ref i, (Machine.fresh 1 none [.slow #[1, 2, 3]]).places ref i ≠ some (0, 1)) ∧
      ((Machine.fresh 1 none [.slow #[1, 2, 3]]).file 0).data[1]? = some 2 ∧
      Run (Operation.Leaves 0 1) (.fresh 1 none [.slow #[1, 2, 3]]) log m ∧
      (m.file 0).data = #[9, 0, 0] ∧
      Leaving 0 1 (.fresh 1 none [.slow #[1, 2, 3]]) log hops m ∧
      ∃ hop ∈ hops, FallsShort 0 1 hop := by
  have played : ((Machine.fresh 1 none [.slow #[1, 2, 3]]).serve [
      .map 0 (.ofBits 8192) 3 true 0 0]).any (fun r =>
        decide (r.2.places ⟨0, ⟨2⟩⟩ 0 = some (0, 0)) &&
          (r.2.ask [] (.write 0 (.ofBits 8192) #[9] (.ofBits 0))).any fun r₁ =>
            (r₁.2.serve [.unmap 0 (.ofBits 8192)]).any fun r₂ =>
              (r₂.2.file 0).data == #[9, 0, 0]) = true := by decide +kernel
  obtain ⟨⟨log, m₁⟩, hserved, hcheck⟩ := (Option.any_eq_true _ _).1 played
  obtain ⟨hplace, hcheck⟩ := Bool.and_eq_true_iff.1 hcheck
  obtain ⟨⟨a, m₂⟩, hasked, hcheck⟩ := (Option.any_eq_true _ _).1 hcheck
  obtain ⟨⟨later, m⟩, hserved', hdata⟩ := (Option.any_eq_true _ _).1 hcheck
  have mapped : Run (Operation.Leaves 0 1) (.fresh 1 none [.slow #[1, 2, 3]]) ([] ++ log) m₁ :=
    .serve .nil (by simp [Operation.Leaves]) hserved
  have leaves : (Operation.write 0 (.ofBits 8192) #[9] (.ofBits 0)).Leaves 0 1 m₁ := by
    intro x hx
    cases List.mem_singleton.1 hx
    rw [show m₁.places ⟨0, (VirtAddr.ofBits 8192).vpnFloor⟩ (VirtAddr.ofBits 8192).pageOffset =
      some (0, 0) from of_decide_eq_true hplace]
    exact nofun
  have written := mapped.turn (.served [] rfl (Machine.ask_eq_some.1 hasked))
    (List.forall_mem_singleton.2 leaves)
  have run := written.serve (by simp [Operation.Leaves]) hserved'
  have hfile : (m.file 0).data = #[9, 0, 0] := beq_iff_eq.1 hdata
  have apart : ∀ ref i, (Machine.fresh 1 none [.slow #[1, 2, 3]]).places ref i ≠ some (0, 1) :=
    nofun
  obtain ⟨⟨hops, leaving⟩, hkept⟩ := unwritten_byte_kept_iff (b := 2) .nil apart rfl run
  obtain ⟨-, -, hsafe, -⟩ := hkept hops leaving
  refine ⟨_, m, hops, .nil, apart, rfl, run, hfile, leaving, ?_⟩
  by_contra hnone
  have hlast := (hsafe fun hop hmem hshort => hnone ⟨hop, hmem, hshort⟩).2
  rw [hfile] at hlast
  exact absurd hlast (by decide)

end DemandPaging
