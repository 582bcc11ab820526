import DemandPaging.Proofs.CheckedRanges

/-!
What a request to map a file is answered, and what it leaves behind. The pages are declared one at a time,
each with a handle of its own; when a handle is refused, the pages that were declared go again, and the
machine is what it was before.
-/

namespace DemandPaging

variable {m m₁ m' : Machine} {r : MapRequest} {s : SpaceId} {va : VirtAddr} {length : Nat}
  {writable : Bool} {file : FileId} {offset : Nat}

namespace Table

variable {κ α : Type} [DecidableEq κ] {k : κ} {rows : List (κ × α)}

theorem setRow_of_fresh (fresh : k ∉ rows.map Prod.fst) (a : α) : setRow k a rows = rows ++ [(k, a)] := by
  induction rows with
  | nil => rfl
  | cons row rest ih =>
      obtain ⟨j, b⟩ := row
      obtain ⟨hne, hrest⟩ := not_or.1 (mt List.mem_cons.2 fresh)
      simp only [setRow, if_neg (Ne.symm hne), ih hrest, List.cons_append]

theorem dropRow_append_cons (fresh : k ∉ rows.map Prod.fst) (a : α) (later : List (κ × α)) :
    dropRow k (rows ++ (k, a) :: later) = rows ++ later := by
  induction rows with
  | nil => simp only [List.nil_append, dropRow, if_pos]
  | cons row rest ih =>
      obtain ⟨j, b⟩ := row
      obtain ⟨hne, hrest⟩ := not_or.1 (mt List.mem_cons.2 fresh)
      simp only [List.cons_append, dropRow, if_neg (Ne.symm hne), ih hrest]

theorem findRow?_append (rows later : List (κ × α)) :
    findRow? k (rows ++ later) = (findRow? k rows).or (findRow? k later) := by
  induction rows with
  | nil => rfl
  | cons row rest ih =>
      obtain ⟨j, b⟩ := row
      by_cases hj : j = k <;> simp [findRow?, hj, ih]

end Table

namespace File

def grants (file : File) (i : Nat) : Bool := file.reopens.reply (file.reopens.served + i)

def lending (file : File) (opened asked : Nat) : File :=
  { file with
    handles := file.handles + opened
    reopens := { file.reopens with served := file.reopens.served + asked } }

theorem lending_zero (file : File) : file.lending 0 0 = file := by
  simp only [lending, Int.natCast_zero, Int.add_zero, Nat.add_zero]

theorem reopen_lending (file : File) (n k : Nat) : (file.lending n k).reopen =
    (file.grants k, file.lending (if file.grants k then n + 1 else n) (k + 1)) := by
  have asked : (file.lending n k).reopens.next =
      (file.grants k, { file.reopens with served := file.reopens.served + (k + 1) }) := rfl
  unfold reopen
  rw [asked]
  cases file.grants k with
  | true => simp only [lending, opened, if_true, Int.natCast_add, Int.natCast_one, Int.add_assoc]
  | false => rfl

theorem closed_lending (file : File) (n k : Nat) :
    (file.lending (n + 1) k).closed = file.lending n k := by
  simp only [lending, closed, File.mk.injEq, true_and, and_true]
  omega

end File

namespace MapRequest

def pages (r : MapRequest) : Nat := (r.length + (pageSize - 1)) / pageSize

/-- The machine once so many pages of the region are there, from number `first` on, and the file was asked
for so many handles. -/
structure Adds (r : MapRequest) (first count asked : Nat) (m m₁ : Machine) : Prop where
  rest : m₁ = { m with files := m₁.files, pages := m₁.pages }
  rows : m₁.pages.rows =
    m.pages.rows ++ (List.range' first count).map fun j => (r.ref j, r.page j)
  file : m₁.file = Function.update m.file r.file ((m.file r.file).lending count asked)

structure Ready (r : MapRequest) (m : Machine) : Prop where
  nonzero : 0 < r.start.val
  valid : r.Valid r.pages
  extent : r.offset + r.pages * pageSize < wordBound
  free : ∀ j < r.pages, m.pages.find? (r.ref j) = none

theorem Adds.start (r : MapRequest) (m : Machine) : r.Adds 0 0 0 m m := by
  refine ⟨rfl, (List.append_nil _).symm, ?_⟩
  rw [File.lending_zero, Function.update_eq_self]

theorem Ready.ref_injective (ready : r.Ready m) {i j : Nat} (hi : i < r.pages) (hj : j < r.pages)
    (same : r.ref i = r.ref j) : i = j := by
  rw [ready.valid.ref_eq hi, ready.valid.ref_eq hj] at same
  simpa using same

theorem Ready.fresh (ready : r.Ready m) {first count j : Nat} (within : first + count ≤ r.pages)
    (hj : j < r.pages) (outside : j < first ∨ first + count ≤ j) : r.ref j ∉
      (m.pages.rows ++ (List.range' first count).map fun j => (r.ref j, r.page j)).map Prod.fst := by
  rw [List.map_append, List.mem_append, List.map_map]
  rintro (old | new)
  · exact Table.findRow?_eq_none.1 (ready.free j hj) old
  · obtain ⟨i, hi, same⟩ := List.mem_map.1 new
    rw [List.mem_range'_1] at hi
    have := ready.ref_injective (by omega) hj same
    omega

theorem Adds.ask {first count asked : Nat} (adds : r.Adds first count asked m m₁) :
    ∃ m₂, useFile r.file File.reopen m₁ = .ok ((m.file r.file).grants asked) m₂ ∧
      m₂.pages = m₁.pages ∧ m₂ = { m with files := m₂.files, pages := m₂.pages } ∧
      m₂.file = Function.update m.file r.file
        ((m.file r.file).lending (if (m.file r.file).grants asked then count + 1 else count)
          (asked + 1)) := by
  have file : m₁.file r.file = (m.file r.file).lending count asked := by
    rw [adds.file, Function.update_self]
  have reopened : useFile r.file File.reopen m₁ = .ok ((m.file r.file).grants asked) { m₁ with
      files := m₁.files.insert r.file ((m.file r.file).lending
        (if (m.file r.file).grants asked then count + 1 else count) (asked + 1)) } :=
    modifyGet_ok.2 (by rw [file, File.reopen_lending])
  refine ⟨_, reopened, rfl, ?_, ?_⟩
  · rw [adds.rest]
  · rw [useFile_file reopened, adds.file, Function.update_self, Function.update_idem,
      File.reopen_lending]

theorem Ready.first_address (ready : r.Ready m) {i : Nat} (hi : i < r.pages) :
    (PageNum.pageStart ⟨r.start.val + i⟩).isUser = true ∧
      (PageNum.pageStart ⟨r.start.val + i⟩).isPageAligned = true := by
  obtain ⟨nonzero, ⟨count, positive, user⟩, -, -⟩ := ready
  rw [VirtAddr.isUser_iff]
  simp only [VirtAddr.isPageAligned, VirtAddr.pageOffset, PageNum.pageStart, VirtAddr.ofBits, beq_iff_eq,
    pages, pageSize, userSpaceEnd, wordBound] at *
  omega

theorem Adds.declare {i : Nat} (adds : r.Adds 0 i i m m₁) (ready : r.Ready m) (hi : i < r.pages) :
    ∃ m₂, r.declarePage i m₁ = .ok ((m.file r.file).grants i) m₂ ∧
      r.Adds 0 (if (m.file r.file).grants i then i + 1 else i) (i + 1) m m₂ := by
  obtain ⟨positive, -, stop⟩ := ready.valid.bounds
  have extent : r.offset + i * pageSize < wordBound :=
    Nat.lt_of_le_of_lt (Nat.add_le_add_left (Nat.mul_le_mul_right _ (Nat.le_of_lt hi)) _) ready.extent
  have product : i * pageSize < wordBound := Nat.lt_of_le_of_lt (Nat.le_add_left _ _) extent
  have sum : r.start.val + i < wordBound := Nat.lt_of_le_of_lt (by omega) stop
  have covered : i * pageSize ≤ r.length := ready.valid.covers hi
  obtain ⟨m₂, asked, pages, rest, file⟩ := adds.ask
  have begun {granted : Bool} {m₃ : Machine} (h : (do
      if granted then
        let backing ← FileBacking.ofHandle r.file (r.offset + i * pageSize)
          (min (min pageSize (r.length - i * pageSize)) (r.fileLength - (r.offset + i * pageSize)))
        let vpn ← checkedAdd r.start.val i
        DemandPaging.declare r.space (PageNum.pageStart ⟨vpn⟩) r.writable (.file backing) none
      else
        pure false : KernelM Bool) m₂ = .ok granted m₃) (hg : (m.file r.file).grants i = granted) :
      r.declarePage i m₁ = .ok granted m₃ := by
    refine bind_ok.2 ⟨_, _, congrFun (if_pos product) m₁, ?_⟩
    refine bind_ok.2 ⟨_, _, congrFun (if_pos extent) m₁, ?_⟩
    refine bind_ok.2 ⟨_, _, congrFun (if_pos covered) m₁, ?_⟩
    exact bind_ok.2 ⟨_, _, asked, hg ▸ h⟩
  cases hg : (m.file r.file).grants i with
  | false =>
      rw [hg] at file
      exact ⟨m₂, begun rfl hg, rest, pages ▸ adds.rows, file⟩
  | true =>
      rw [hg] at file
      obtain ⟨user, aligned⟩ := ready.first_address hi
      have absent : m₂.pages.find? (r.ref i) = none := by
        refine Table.findRow?_eq_none.2 ?_
        rw [pages, adds.rows]
        exact ready.fresh (by omega) hi (.inr (by omega))
      have declared : DemandPaging.declare r.space (PageNum.pageStart ⟨r.start.val + i⟩) r.writable
          (.file (r.backing i)) none m₂ =
            .ok true { m₂ with pages := m₂.pages.insert (r.ref i) (r.page i) } := by
        unfold DemandPaging.declare
        simp only [user, aligned, Bool.and_self, if_true]
        exact bind_ok.2 ⟨none, m₂, congrArg (EStateM.Result.ok · m₂) absent, rfl⟩
      refine ⟨{ m₂ with pages := m₂.pages.insert (r.ref i) (r.page i) }, begun ?_ hg, ?_, ?_, file⟩
      · refine bind_ok.2 ⟨_, _, congrFun (dif_pos (r.backing i).readBytes_le) m₂, ?_⟩
        exact bind_ok.2 ⟨_, _, congrFun (if_pos sum) m₂, declared⟩
      · rw [rest]
      · have fresh := Table.findRow?_eq_none.1 absent
        change Table.setRow _ _ m₂.pages.rows = _
        rw [Table.setRow_of_fresh fresh, pages, adds.rows, if_pos rfl, List.range'_1_concat,
          List.map_append, List.append_assoc, Nat.zero_add]
        rfl

theorem Adds.remove {first count asked : Nat} (adds : r.Adds first (count + 1) asked m m₁)
    (ready : r.Ready m) (within : first + (count + 1) ≤ r.pages) :
    ∃ m₂, removeRef (r.ref first) m₁ = .ok true m₂ ∧ r.Adds (first + 1) count asked m m₂ := by
  have fresh : r.ref first ∉ m.pages.rows.map Prod.fst :=
    Table.findRow?_eq_none.1 (ready.free first (by omega))
  have rows : m₁.pages.rows = m.pages.rows ++ (r.ref first, r.page first) ::
      (List.range' (first + 1) count).map fun j => (r.ref j, r.page j) := by
    rw [adds.rows, List.range'_succ, List.map_cons]
  have found : m₁.pages.find? (r.ref first) = some (r.page first) := by
    change Table.findRow? _ m₁.pages.rows = _
    rw [rows, Table.findRow?_append, Table.findRow?_eq_none.2 fresh, Option.none_or]
    exact if_pos rfl
  have removed : removeRef (r.ref first) m₁ = .ok true { m₁ with
      pages := m₁.pages.erase (r.ref first)
      files := m₁.files.insert r.file (m₁.file r.file).closed } :=
    bind_ok.2 ⟨_, m₁, congrArg (EStateM.Result.ok · m₁) found, rfl⟩
  have closed : closeFile r.file { m₁ with pages := m₁.pages.erase (r.ref first) } =
      .ok () { m₁ with
        pages := m₁.pages.erase (r.ref first)
        files := m₁.files.insert r.file (m₁.file r.file).closed } := rfl
  refine ⟨_, removed, ?_, ?_, ?_⟩
  · rw [adds.rest]
  · change Table.dropRow _ m₁.pages.rows = _
    rw [rows, Table.dropRow_append_cons fresh]
  · rw [useFile_file closed]
    change Function.update m₁.file r.file (m₁.file r.file).closed = _
    rw [adds.file, Function.update_self, Function.update_idem, File.closed_lending]

theorem Adds.undo {first count asked : Nat} (adds : r.Adds first count asked m m₁) (ready : r.Ready m)
    (within : first + count ≤ r.pages) : ∃ m₂,
      removePages r.space (PageNum.range ⟨r.start.val + first⟩ count) m₁ = .ok () m₂ ∧
        r.Adds (first + count) 0 asked m m₂ := by
  induction count generalizing first m₁ with
  | zero => exact ⟨m₁, rfl, adds⟩
  | succ count ih =>
      obtain ⟨m₂, removed, adds₂⟩ := adds.remove ready within
      obtain ⟨m₃, undone, adds₃⟩ := ih adds₂ (by omega)
      rw [Nat.add_assoc, Nat.add_comm 1] at adds₃
      exact ⟨m₃, bind_ok.2 ⟨true, m₂, removed, undone⟩, adds₃⟩

theorem Adds.declare_all {count i : Nat} (adds : r.Adds 0 i i m m₁) (ready : r.Ready m)
    (last : i + count = r.pages) :
    (∃ m₂, r.declarePages count i m₁ = .ok true m₂ ∧ r.Adds 0 r.pages r.pages m m₂ ∧
      ∀ j, i ≤ j → j < r.pages → (m.file r.file).grants j = true) ∨
    ∃ j m₂, r.declarePages count i m₁ = .ok false m₂ ∧ r.Adds j 0 (j + 1) m m₂ ∧ j < r.pages ∧
      (m.file r.file).grants j = false := by
  induction count generalizing i m₁ with
  | zero =>
      obtain rfl : i = r.pages := last
      exact .inl ⟨m₁, rfl, adds, fun j hi hj => by omega⟩
  | succ count ih =>
      obtain ⟨m₂, declared, adds₂⟩ := adds.declare ready (by omega)
      cases hg : (m.file r.file).grants i with
      | true =>
          rw [hg] at declared adds₂
          rw [if_pos rfl] at adds₂
          rcases ih adds₂ (by omega) with ⟨m₃, all, adds₃, granted⟩ | ⟨j, m₃, undone, rest⟩
          · refine .inl ⟨m₃, bind_ok.2 ⟨true, m₂, declared, all⟩, adds₃, fun j hi hj => ?_⟩
            rcases Nat.eq_or_lt_of_le hi with rfl | hi
            · exact hg
            · exact granted j hi hj
          · exact .inr ⟨j, m₃, bind_ok.2 ⟨true, m₂, declared, undone⟩, rest⟩
      | false =>
          rw [hg] at declared adds₂
          rw [if_neg Bool.false_ne_true] at adds₂
          have stop : r.start.val + i < wordBound :=
            Nat.lt_of_le_of_lt (by omega) ready.valid.bounds.2.2
          obtain ⟨m₃, undone, adds₃⟩ := adds₂.undo ready (by omega)
          rw [Nat.zero_add] at adds₃
          have removed : removePages r.space (r.start.rangeTo ⟨r.start.val + i⟩) m₂ = .ok () m₃ := by
            rw [PageNum.rangeTo, Nat.add_sub_cancel_left]
            exact undone
          refine .inr ⟨i, m₃, bind_ok.2 ⟨false, m₂, declared, ?_⟩, adds₃, by omega, hg⟩
          exact bind_ok.2 ⟨_, _, congrFun (if_pos stop) m₂, bind_ok.2 ⟨(), m₃, removed, rfl⟩⟩

/-- The machine with all pages of the region, each with a handle of its own, and the region on record. -/
structure Maps (r : MapRequest) (m m' : Machine) : Prop where
  rest : m' = { m with
    files := m'.files
    pages := m'.pages
    regions := m.regions.insert ⟨r.space, r.start⟩ r.pages
    console := m'.console }
  added : ∀ i < r.pages, m'.pages.find? ⟨r.space, ⟨r.start.val + i⟩⟩ = some (r.page i)
  kept : ∀ ref, (∀ i < r.pages, ref ≠ ⟨r.space, ⟨r.start.val + i⟩⟩) →
    m'.pages.find? ref = m.pages.find? ref
  file : m'.file = Function.update m.file r.file ((m.file r.file).lending r.pages r.pages)

theorem Adds.maps (adds : r.Adds 0 r.pages r.pages m m₁) (ready : r.Ready m) (console : List Event) :
    r.Maps m { m₁ with regions := m₁.regions.insert ⟨r.space, r.start⟩ r.pages, console } := by
  have look (ref : PageRef) : m₁.pages.find? ref = (m.pages.find? ref).or
      (Table.findRow? ref ((List.range' 0 r.pages).map fun j => (r.ref j, r.page j))) := by
    change Table.findRow? _ m₁.pages.rows = _
    rw [adds.rows, Table.findRow?_append]
    rfl
  refine ⟨?_, fun i hi => ?_, fun ref outside => ?_, adds.file⟩
  · rw [adds.rest]
  · change m₁.pages.find? _ = _
    rw [← ready.valid.ref_eq hi, look, ready.free i hi, Option.none_or]
    refine (Table.findRow?_eq_some ?_).2 (List.mem_map.2 ⟨i, List.mem_range'_1.2 (by omega), rfl⟩)
    rw [List.map_map]
    refine List.Nodup.map_on (fun i hi j hj same => ?_) List.nodup_range'
    rw [List.mem_range'_1] at hi hj
    exact ready.ref_injective (by omega) (by omega) same
  · change m₁.pages.find? _ = _
    rw [look]
    refine Option.or_eq_left_of_none (Table.findRow?_eq_none.2 fun new => ?_)
    rw [List.map_map] at new
    obtain ⟨i, hi, same⟩ := List.mem_map.1 new
    rw [List.mem_range'_1] at hi
    exact outside i (by omega) (by rw [← ready.valid.ref_eq (by omega), ← same]; rfl)

end MapRequest

/-- Nothing has changed but the reports, and how many handles the files were asked for. -/
structure Machine.Untouched (m m' : Machine) : Prop where
  rest : m' = { m with files := m'.files, console := m'.console }
  file : ∀ id, ∃ asked, m'.file id = (m.file id).lending 0 asked

theorem MapRequest.Adds.untouched {first asked : Nat} (adds : r.Adds first 0 asked m m₁) :
    m.Untouched m₁ := by
  have pages : m₁.pages = m.pages := Table.ext_rows (adds.rows.trans (List.append_nil _))
  refine ⟨?_, fun id => ?_⟩
  · have rest := adds.rest
    rw [pages] at rest
    have console := congrArg Machine.console rest
    rwa [show m₁.console = m.console from console]
  · rw [adds.file]
    by_cases hid : id = r.file
    · subst hid
      exact ⟨asked, Function.update_self _ _ _⟩
    · exact ⟨0, (Function.update_of_ne hid _ _).trans (File.lending_zero _).symm⟩

theorem Machine.Untouched.reported (m : Machine) (console : List Event) :
    m.Untouched { m with console } :=
  ⟨rfl, fun _ => ⟨0, (File.lending_zero _).symm⟩⟩

/-- What makes a request to map a file a bad one. The sums are those of numbers, so one that leaves the
machine word is too large in any case. -/
def Machine.Unmappable (m : Machine) (va : VirtAddr) (length : Nat) (file : FileId) (offset : Nat) :
    Prop :=
  va.val = 0 ∨ va.val % pageSize ≠ 0 ∨ length = 0 ∨ offset % pageSize ≠ 0 ∨
    userSpaceEnd < va.val + length ∨ (m.file file).data.size = 0 ∨
      wordBound ≤ offset + (length + (pageSize - 1)) / pageSize * pageSize

def Machine.mapRequest (m : Machine) (s : SpaceId) (va : VirtAddr) (length : Nat) (writable : Bool)
    (file : FileId) (offset : Nat) : MapRequest :=
  ⟨s, va.vpnFloor, length, writable, file, (m.file file).data.size, offset⟩

inductive Machine.Answers (m : Machine) (va : VirtAddr) (r : MapRequest) :
    Except Errno VirtAddr → Machine → Prop where
  | invalid (bad : m.Unmappable va r.length r.file r.offset) (console : List Event) :
      Answers m va r (.error .invalid) { m with console }
  | taken (good : ¬ m.Unmappable va r.length r.file r.offset)
      (taken : ∃ ref, va.Touches r.space r.length ref ∧ m.pages.find? ref ≠ none)
      (console : List Event) : Answers m va r (.error .exists) { m with console }
  | noHandle {m' : Machine} (good : ¬ m.Unmappable va r.length r.file r.offset)
      (free : ∀ ref, va.Touches r.space r.length ref → m.pages.find? ref = none)
      (refused : ∃ i < r.pages, (m.file r.file).grants i = false) (untouched : m.Untouched m') :
      Answers m va r (.error .noMemory) m'
  | mapped {m' : Machine} (good : ¬ m.Unmappable va r.length r.file r.offset)
      (free : ∀ ref, va.Touches r.space r.length ref → m.pages.find? ref = none)
      (granted : ∀ i < r.pages, (m.file r.file).grants i = true) (maps : r.Maps m m') :
      Answers m va r (.ok va) m'

theorem VirtAddr.touches_iff {ref : PageRef} (aligned : va.val % pageSize = 0)
    (bounded : va.val + length < wordBound) : va.Touches s length ref ↔
      ∃ i < (length + (pageSize - 1)) / pageSize, ref = ⟨s, ⟨va.vpnFloor.val + i⟩⟩ := by
  have within {i : Nat} (hi : i < length) : (va.advance i).val = va.val + i :=
    val_advance_of_lt (by omega)
  constructor
  · rintro ⟨i, hi, rfl⟩
    have := within hi
    refine ⟨i / pageSize, ?_, ?_⟩
    · simp only [pageSize]
      omega
    · simp only [vpnFloor, pageSize, PageRef.mk.injEq, PageNum.mk.injEq, true_and] at *
      omega
  · rintro ⟨i, hi, rfl⟩
    have := within (i := i * pageSize) (by simp only [pageSize] at *; omega)
    refine ⟨i * pageSize, by simp only [pageSize] at *; omega, ?_⟩
    simp only [vpnFloor, pageSize, PageRef.mk.injEq, PageNum.mk.injEq, true_and] at *
    omega

theorem Machine.overlaps_iff (aligned : va.val % pageSize = 0) (bounded : va.val + length < wordBound) :
    m.overlaps s va.vpnFloor ⟨va.vpnFloor.val + (length + (pageSize - 1)) / pageSize⟩ = true ↔
      ∃ ref, va.Touches s length ref ∧ m.pages.find? ref ≠ none := by
  simp only [overlaps, List.any_eq_true, Bool.and_eq_true, beq_iff_eq, decide_eq_true_eq, Table.mem_keys,
    Option.isSome_iff_ne_none, VirtAddr.touches_iff aligned bounded]
  constructor
  · rintro ⟨⟨_, ⟨v⟩⟩, found, ⟨rfl, first⟩, last⟩
    dsimp only at first last
    have index : va.vpnFloor.val + (v - va.vpnFloor.val) = v := by omega
    exact ⟨_, ⟨v - va.vpnFloor.val, by omega, by rw [index]⟩, found⟩
  · rintro ⟨_, ⟨i, hi, rfl⟩, found⟩
    exact ⟨_, found, ⟨rfl, by dsimp only; omega⟩, by dsimp only; omega⟩

theorem Machine.mappable_iff : ¬ m.Unmappable va length file offset ↔
    va.val ≠ 0 ∧ va.val % pageSize = 0 ∧ length ≠ 0 ∧ offset % pageSize = 0 ∧
      va.val + length ≤ userSpaceEnd ∧ (m.file file).data.size ≠ 0 ∧
        offset + (length + (pageSize - 1)) / pageSize * pageSize < wordBound := by
  simp only [Unmappable, not_or, ne_eq, not_not, Nat.not_lt, Nat.not_le]

theorem Machine.mapRequest_valid (m : Machine) (s : SpaceId) (writable : Bool) (file : FileId)
    (offset : Nat) (aligned : va.val % pageSize = 0) (positive : length ≠ 0)
    (user : va.val + length ≤ userSpaceEnd) :
    (m.mapRequest s va length writable file offset).Valid
      (m.mapRequest s va length writable file offset).pages := by
  refine ⟨rfl, Nat.pos_of_ne_zero positive, ?_⟩
  simp only [mapRequest, VirtAddr.vpnFloor, pageSize, userSpaceEnd] at *
  omega

theorem Machine.mapRequest_ready {writable : Bool} (good : ¬ m.Unmappable va length file offset)
    (free : ∀ ref, va.Touches s length ref → m.pages.find? ref = none) :
    (m.mapRequest s va length writable file offset).Ready m := by
  obtain ⟨nonzero, aligned, positive, -, user, -, fits⟩ := mappable_iff.1 good
  have valid := m.mapRequest_valid s writable file offset aligned positive user
  have bounded : va.val + length < wordBound := Nat.lt_of_le_of_lt user (by decide)
  refine ⟨?_, valid, fits, fun j hj => ?_⟩
  · simp only [mapRequest, VirtAddr.vpnFloor, pageSize] at *
    omega
  · rw [valid.ref_eq hj]
    exact free _ ((VirtAddr.touches_iff aligned bounded).2 ⟨j, hj, rfl⟩)

/-- The last part of `map`, in which the pages are declared. -/
def MapRequest.place (r : MapRequest) (va : VirtAddr) (pages last : Nat) :
    KernelM (Except Errno VirtAddr) := do
  if (← get).overlaps r.space r.start ⟨last⟩ then
    emit (.mappingOverlaps va)
    pure (.error .exists)
  else if ← r.declarePages pages 0 then
    modify fun m => { m with regions := m.regions.insert ⟨r.space, r.start⟩ pages }
    emit (.mapped va pages)
    pure (.ok va)
  else
    pure (.error .noMemory)

/-- The part of `map` that comes when the region is known to end at `stop`, within user space. -/
def MapRequest.fit (r : MapRequest) (va stop : VirtAddr) : KernelM (Except Errno VirtAddr) := do
  if r.fileLength = 0 then
    emit .emptyFile
    pure (.error .invalid)
  else
    let pages ← checkedSub stop.vpnCeil.val r.start.val
    let extent ← checkedMul pages pageSize
    if wordBound ≤ r.offset + extent then
      emit (.offsetOverflow r.offset)
      pure (.error .invalid)
    else
      let last ← checkedAdd r.start.val pages
      r.place va pages last

section Verdicts

variable {E : Panic → Machine → Prop}

theorem Machine.place_answers (good : ¬ m.Unmappable va length file offset) :
    let r := m.mapRequest s va length writable file offset
    Ends E (r.place va r.pages (r.start.val + r.pages)) m (m.Answers va r) := by
  intro r
  obtain ⟨-, aligned, -, -, user, -⟩ := Machine.mappable_iff.1 good
  have overlaps := Machine.overlaps_iff (m := m) (s := s) aligned
    (Nat.lt_of_le_of_lt user (by decide))
  refine Ends.after (get_ok.2 ⟨rfl, rfl⟩) ?_
  split
  · next taken => exact Machine.Answers.taken good (overlaps.1 taken) _
  · next apart =>
      have free (ref : PageRef) (touched : va.Touches s length ref) : m.pages.find? ref = none := by
        by_contra found
        exact apart (overlaps.2 ⟨ref, touched, found⟩)
      have ready : r.Ready m := Machine.mapRequest_ready good free
      rcases (MapRequest.Adds.start r m).declare_all ready (Nat.zero_add _) with
        ⟨m₁, declared, adds, granted⟩ | ⟨j, m₁, undone, adds, hj, refused⟩
      · refine .after declared ?_
        exact Machine.Answers.mapped good free (fun i hi => granted i (Nat.zero_le i) hi)
          (adds.maps ready _)
      · refine .after undone ?_
        exact Machine.Answers.noHandle good free ⟨j, hj, refused⟩ adds.untouched

theorem Machine.fit_answers {stop : VirtAddr} (nonzero : va.val ≠ 0) (aligned : va.val % pageSize = 0)
    (positive : length ≠ 0) (offset_aligned : offset % pageSize = 0)
    (sum : stop.val = va.val + length) (user : va.val + length ≤ userSpaceEnd) :
    let r := m.mapRequest s va length writable file offset
    Ends E (r.fit va stop) m (m.Answers va r) := by
  intro r
  have invalid (bad : m.Unmappable va length file offset) (console : List Event) :=
    Machine.Answers.invalid (r := r) bad console
  have count : stop.vpnCeil.val - r.start.val = r.pages ∧ r.start.val ≤ stop.vpnCeil.val := by
    simp only [r, mapRequest, MapRequest.pages, VirtAddr.vpnCeil, VirtAddr.vpnFloor, pageSize] at *
    omega
  obtain ⟨-, product, last⟩ :=
    (m.mapRequest_valid s writable file offset aligned positive user).bounds
  unfold MapRequest.fit
  split
  · next empty => exact invalid (.inr (.inr (.inr (.inr (.inr (.inl empty)))))) _
  · next some_of =>
      refine (checkedSub_ends count.2).bind fun pages _ _ counted => ?_
      obtain ⟨hpages, rfl⟩ := counted
      obtain rfl : r.pages = pages := count.1.symm.trans hpages
      refine (checkedMul_ends product).bind fun extent _ _ multiplied => ?_
      obtain ⟨rfl, rfl⟩ := multiplied
      split
      · next overflow => exact invalid (.inr (.inr (.inr (.inr (.inr (.inr overflow)))))) _
      · next fits =>
          refine (checkedAdd_ends last).bind fun stop' _ _ added => ?_
          obtain ⟨rfl, rfl⟩ := added
          exact Machine.place_answers (Machine.mappable_iff.2
            ⟨nonzero, aligned, positive, offset_aligned, user, some_of, Nat.lt_of_not_le fits⟩)

theorem malformed_iff : (va.val == 0 || !va.isPageAligned || length == 0 || offset % pageSize != 0) = true ↔
    va.val = 0 ∨ va.val % pageSize ≠ 0 ∨ length = 0 ∨ offset % pageSize ≠ 0 := by
  simp only [Bool.or_eq_true, beq_iff_eq, Bool.not_eq_true', bne_iff_ne, VirtAddr.isPageAligned,
    VirtAddr.pageOffset, beq_eq_false_iff_ne, or_assoc, ne_eq]

theorem map_answers (s : SpaceId) (va : VirtAddr) (length : Nat) (writable : Bool) (file : FileId)
    (offset : Nat) (m : Machine) : Ends E (map s va length writable file offset) m
      (m.Answers va (m.mapRequest s va length writable file offset)) := by
  have invalid (console : List Event) (bad : m.Unmappable va length file offset) :=
    Machine.Answers.invalid (r := m.mapRequest s va length writable file offset) bad console
  have too_far (beyond : userSpaceEnd < va.val + length) : m.Unmappable va length file offset :=
    .inr (.inr (.inr (.inr (.inl beyond))))
  unfold map
  split
  · next malformed =>
      have bad := malformed_iff.1 malformed
      exact invalid _ (by unfold Machine.Unmappable; tauto)
  · next formed =>
      obtain ⟨nonzero, aligned, positive, offset_aligned⟩ :
          va.val ≠ 0 ∧ va.val % pageSize = 0 ∧ length ≠ 0 ∧ offset % pageSize = 0 := by
        simpa only [malformed_iff, not_or, ne_eq, not_not] using formed
      cases hstop : va.add? length with
      | none =>
          have wraps := VirtAddr.add?_eq_none.1 hstop
          exact invalid m.console (too_far (Nat.lt_of_lt_of_le (by decide) wraps))
      | some stop =>
          have sum := VirtAddr.val_of_add? hstop
          dsimp only
          split
          · next beyond => exact invalid m.console (too_far (sum ▸ beyond))
          · next within =>
              refine Ends.after (get_ok.2 ⟨rfl, rfl⟩) ?_
              exact Machine.fit_answers nonzero aligned positive offset_aligned sum
                (sum ▸ Nat.le_of_not_lt within)

end Verdicts

namespace Machine.Untouched

theorem stats (h : m.Untouched m') : m'.stats = m.stats := by
  rw [h.rest]
  rfl

theorem handles (h : m.Untouched m') : m'.handles = m.handles := by
  funext id
  obtain ⟨asked, same⟩ := h.file id
  rw [Machine.handles, Machine.handles, same]
  exact add_zero _

end Machine.Untouched

/-- Mapping a file is all or nothing. A bad request is turned down as such; else pages of the space may
stand in the way; else the file may refuse one of the handles, and with each of these answers all is as it
was. Otherwise the pages of the bytes are added, as many as they come to, unused, writable as asked for,
each with a handle of its own, and the region is recorded. -/
theorem map_all_or_nothing (m : Machine) (s : SpaceId) (va : VirtAddr) (length : Nat) (writable : Bool)
    (file : FileId) (offset : Nat) :
    ∃ verdict m', map s va length writable file offset m = .ok verdict m' ∧
      (verdict = .error .invalid ↔ m.Unmappable va length file offset) ∧
      (verdict = .error .exists ↔ ¬ m.Unmappable va length file offset ∧
        ∃ ref, va.Touches s length ref ∧ m.pages.find? ref ≠ none) ∧
      (verdict = .error .noMemory ↔ ¬ m.Unmappable va length file offset ∧
        (∀ ref, va.Touches s length ref → m.pages.find? ref = none) ∧
        ∃ i < (length + (pageSize - 1)) / pageSize, (m.file file).grants i = false) ∧
      (verdict = .ok va ↔ ¬ m.Unmappable va length file offset ∧
        (∀ ref, va.Touches s length ref → m.pages.find? ref = none) ∧
        ∀ i < (length + (pageSize - 1)) / pageSize, (m.file file).grants i = true) ∧
      (∀ e, verdict = .error e → m.Untouched m' ∧ m'.stats = m.stats ∧ m'.handles = m.handles) ∧
      (verdict = .ok va → (m.mapRequest s va length writable file offset).Maps m m' ∧
        ∀ ref, va.Touches s length ref ↔
          ∃ i < (length + (pageSize - 1)) / pageSize, ref = ⟨s, ⟨va.vpnFloor.val + i⟩⟩) := by
  obtain ⟨verdict, m', run, answers⟩ := (map_answers s va length writable file offset m).result
  refine ⟨verdict, m', run, ?_⟩
  clear run
  have before (untouched : m.Untouched m') :
      m.Untouched m' ∧ m'.stats = m.stats ∧ m'.handles = m.handles :=
    ⟨untouched, untouched.stats, untouched.handles⟩
  cases answers with
  | invalid bad console =>
      exact ⟨iff_of_true rfl bad, iff_of_false nofun fun h => h.1 bad,
        iff_of_false nofun fun h => h.1 bad, iff_of_false nofun fun h => h.1 bad,
        fun _ _ => before (.reported m console), nofun⟩
  | taken good taken console =>
      have apart : ¬ ∀ ref, va.Touches s length ref → m.pages.find? ref = none := fun free =>
        have ⟨ref, touched, found⟩ := taken
        found (free ref touched)
      exact ⟨iff_of_false nofun good, iff_of_true rfl ⟨good, taken⟩,
        iff_of_false nofun fun h => apart h.2.1, iff_of_false nofun fun h => apart h.2.1,
        fun _ _ => before (.reported m console), nofun⟩
  | noHandle good free refused untouched =>
      have short : ¬ ∀ i < (length + (pageSize - 1)) / pageSize, (m.file file).grants i = true :=
        fun all =>
          have ⟨i, hi, no⟩ := refused
          nomatch no.symm.trans (all i hi)
      exact ⟨iff_of_false nofun good, iff_of_false nofun fun ⟨_, ref, touched, found⟩ =>
          found (free ref touched), iff_of_true rfl ⟨good, free, refused⟩,
        iff_of_false nofun fun h => short h.2.2, fun _ _ => before untouched, nofun⟩
  | mapped good free granted maps =>
      obtain ⟨-, aligned, -, -, user, -⟩ := Machine.mappable_iff.1 good
      have whole : ¬ ∃ i < (length + (pageSize - 1)) / pageSize, (m.file file).grants i = false :=
        fun ⟨i, hi, no⟩ => nomatch no.symm.trans (granted i hi)
      exact ⟨iff_of_false nofun good, iff_of_false nofun fun ⟨_, ref, touched, found⟩ =>
          found (free ref touched), iff_of_false nofun fun h => whole h.2.2,
        iff_of_true rfl ⟨good, free, granted⟩, nofun, fun _ => ⟨maps, fun _ =>
          VirtAddr.touches_iff aligned (Nat.lt_of_le_of_lt user (by decide))⟩⟩

end DemandPaging
