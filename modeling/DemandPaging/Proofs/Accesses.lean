import DemandPaging.Proofs.Spaces

/-!
What user code reads and writes, byte by byte, and the runs of steps behind it. An access is a walk
through consecutive addresses; each of its bytes belongs to one page at one offset.
-/

namespace DemandPaging

open DemandPaging.Core

variable {m m' : Machine} {ref : PageRef} {s : SpaceId} {va sp : VirtAddr}

namespace VirtAddr

theorem advance_zero (va : VirtAddr) : va.advance 0 = va := by
  obtain ⟨v, hv⟩ := va
  simp only [advance, ofBits, Nat.add_zero, Nat.mod_eq_of_lt hv]

theorem advance_advance (va : VirtAddr) (a b : Nat) :
    (va.advance a).advance b = va.advance (a + b) := by
  simp only [advance, ofBits, Nat.mod_add_mod, Nat.add_assoc]

theorem advance_one_of_lt {va : VirtAddr} (h : va.pageOffset + 1 < pageSize) :
    (va.advance 1).vpnFloor = va.vpnFloor ∧ (va.advance 1).pageOffset = va.pageOffset + 1 := by
  obtain ⟨v, hv⟩ := va
  simp only [wordBound] at hv
  simp only [pageOffset, pageSize] at h
  simp only [advance, ofBits, vpnFloor, pageOffset, PageNum.mk.injEq, pageSize, wordBound]
  omega

end VirtAddr

structure ByteAt where
  ref : PageRef
  offset : Nat
  byte : UInt8

namespace ByteAt

def row (ref : PageRef) : Nat → List UInt8 → List ByteAt
  | _, [] => []
  | offset, byte :: rest => ⟨ref, offset, byte⟩ :: row ref (offset + 1) rest

def along (s : SpaceId) : VirtAddr → List UInt8 → List ByteAt
  | _, [] => []
  | va, byte :: rest => ⟨⟨s, va.vpnFloor⟩, va.pageOffset, byte⟩ :: along s (va.advance 1) rest

theorem row_eq_along {bytes : List UInt8} (h : va.pageOffset + bytes.length ≤ pageSize) :
    row ⟨s, va.vpnFloor⟩ va.pageOffset bytes = along s va bytes := by
  induction bytes generalizing va with
  | nil => rfl
  | cons byte rest ih =>
      rw [List.length_cons] at h
      simp only [row, along, List.cons.injEq, true_and]
      by_cases hrest : rest = []
      · subst hrest
        rfl
      · have hlen := List.length_pos_iff.2 hrest
        obtain ⟨hpage, hoff⟩ := @VirtAddr.advance_one_of_lt va (by omega)
        rw [← ih (by omega), hpage, hoff]

theorem mem_row {ref : PageRef} {offset : Nat} {bytes : List UInt8} {x : ByteAt}
    (h : x ∈ row ref offset bytes) :
    x.ref = ref ∧ ∃ k, x.offset = offset + k ∧ bytes[k]? = some x.byte := by
  induction bytes generalizing offset with
  | nil => exact nomatch h
  | cons byte rest ih =>
      rcases List.mem_cons.1 h with rfl | h
      · exact ⟨rfl, 0, rfl, rfl⟩
      · obtain ⟨href, k, hk, hbyte⟩ := ih h
        exact ⟨href, k + 1, by omega, hbyte⟩

theorem row_mem {ref : PageRef} {offset k : Nat} {bytes : List UInt8} {byte : UInt8}
    (h : bytes[k]? = some byte) : ⟨ref, offset + k, byte⟩ ∈ row ref offset bytes := by
  induction bytes generalizing offset k with
  | nil => exact nomatch h
  | cons b rest ih =>
      cases k with
      | zero =>
          cases Option.some.inj h
          exact List.mem_cons_self
      | succ k =>
          rw [show offset + (k + 1) = offset + 1 + k by omega]
          exact List.mem_cons_of_mem _ (ih h)

theorem along_append (xs ys : List UInt8) :
    along s va (xs ++ ys) = along s va xs ++ along s (va.advance xs.length) ys := by
  induction xs generalizing va with
  | nil => rw [List.length_nil, VirtAddr.advance_zero]; rfl
  | cons byte rest ih =>
      simp only [List.cons_append, along, ih, VirtAddr.advance_advance, List.length_cons,
        Nat.add_comm 1]

end ByteAt

namespace Deed

def loads : Deed → List ByteAt
  | read ref offset bytes => ByteAt.row ref offset bytes.toList
  | _ => []

theorem loads_slice {bytes : PageBytes} {offset count : Nat} {x : ByteAt}
    (hx : x ∈ (read ref offset (PageBytes.slice bytes offset count)).loads) :
    x.ref = ref ∧ bytes.byteAt x.offset = x.byte := by
  obtain ⟨href, k, hk, hbyte⟩ := ByteAt.mem_row hx
  rw [Array.getElem?_toList] at hbyte
  obtain ⟨hlt, -⟩ := Array.getElem?_eq_some_iff.1 hbyte
  rw [PageBytes.slice, Array.size_ofFn] at hlt
  rw [PageBytes.getElem?_slice hlt] at hbyte
  exact ⟨href, hk ▸ Option.some.inj hbyte⟩

def stores : Deed → List ByteAt
  | write ref offset bytes => ByteAt.row ref offset bytes.toList
  | _ => []

def allLoads (ds : List Deed) : List ByteAt := ds.flatMap loads

def allStores (ds : List Deed) : List ByteAt := ds.flatMap stores

theorem allLoads_append (ds es : List Deed) : allLoads (ds ++ es) = allLoads ds ++ allLoads es :=
  List.flatMap_append

theorem allStores_append (ds es : List Deed) :
    allStores (ds ++ es) = allStores ds ++ allStores es :=
  List.flatMap_append

/-- What a fault at a page may do, the growth of the stack included. -/
def Faults (ref : PageRef) (d : Deed) : Prop :=
  d.Admits ref ∨ d = .add ref (.fresh ref.space true (.uninit .anon none))

theorem Admits.silent {d : Deed} (h : d.Admits ref) : d.loads = [] ∧ d.stores = [] := by
  rcases h with h | rfl
  · cases d with
    | make | fail => exact ⟨rfl, rfl⟩
    | _ => exact h.elim
  · exact ⟨rfl, rfl⟩

theorem Faults.silent {d : Deed} (h : d.Faults ref) : d.loads = [] ∧ d.stores = [] := by
  rcases h with h | rfl
  · exact h.silent
  · exact ⟨rfl, rfl⟩

theorem Faults.all_silent {ds : List Deed} (h : ∀ d ∈ ds, d.Faults ref) :
    allLoads ds = [] ∧ allStores ds = [] :=
  ⟨List.flatMap_eq_nil_iff.2 fun d hd => (h d hd).silent.1,
    List.flatMap_eq_nil_iff.2 fun d hd => (h d hd).silent.2⟩

/-- The deeds of a read at some addresses: faults there, and what is read. -/
def Reads (s : SpaceId) (P : VirtAddr → Prop) (d : Deed) : Prop :=
  ∃ va, P va ∧ (d.Faults ⟨s, va.vpnFloor⟩ ∨
    ∃ bytes, d = .read ⟨s, va.vpnFloor⟩ va.pageOffset bytes)

def Writes (s : SpaceId) (P : VirtAddr → Prop) (d : Deed) : Prop :=
  ∃ va, P va ∧ (d.Faults ⟨s, va.vpnFloor⟩ ∨
    ∃ bytes, d = .write ⟨s, va.vpnFloor⟩ va.pageOffset bytes)

end Deed

theorem resolveFault_core {addr : VirtAddr} {flags : FaultFlags} {done : Bool} (hs : m.core.Sound)
    (h : resolveFault s addr sp flags m = .ok done m') :
    ∃ ds, Steps m.core ds m'.core ∧ ∀ d ∈ ds, d.Faults ⟨s, addr.vpnFloor⟩ := by
  cases resolveFault_faulted h with
  | refused _ _ _ same =>
      subst same
      exact ⟨[], .refl m.core, nofun⟩
  | @there page page' m₁ _ _ found touched resolved =>
      obtain ⟨stamped, -⟩ := touch_step (m := { m with console := _ }) found touched
      obtain ⟨ds, hsteps, hds⟩ := resolve_core (stamped.sound hs) resolved
      exact ⟨_, stamped.steps.trans hsteps, fun d hd => .inl (hds d hd)⟩
  | grown _ _ _ absent _ resolved =>
      have grows : Step m.core [.add ⟨s, addr.vpnFloor⟩ (.fresh s true (.uninit .anon none))] _ :=
        .add absent nofun
      obtain ⟨ds, hsteps, hds⟩ := resolve_core (by exact grows.sound hs) resolved
      refine ⟨_, grows.steps.trans hsteps, fun d hd => ?_⟩
      rcases List.mem_cons.1 hd with rfl | hd
      · exact .inr rfl
      · exact .inl (hds d hd)

theorem mapping?_core {found : Option Mapping} (h : mapping? s va m = .ok found m') :
    found = m.core.mappings.find? ⟨s, va.vpnFloor⟩ ∧ m = m' := by
  replace h := bind_get_ok.1 h
  obtain ⟨rfl, rfl⟩ := pure_ok.1 h
  exact ⟨rfl, rfl⟩

theorem faultIn_core {write done : Bool} (hs : m.core.Sound)
    (h : faultIn s va sp write m = .ok done m') :
    ∃ ds, Steps m.core ds m'.core ∧ ∀ d ∈ ds, d.Faults ⟨s, va.vpnFloor⟩ := by
  obtain ⟨_, _, h₁, h⟩ := bind_ok.1 h
  obtain ⟨-, rfl⟩ := mapping?_core h₁
  exact resolveFault_core hs h

theorem readMapped_core {n : Nat} {got : Option (Array UInt8)}
    (fits : va.pageOffset + n ≤ pageSize) (h : readMapped s va n m = .ok got m') :
    m' = m ∧ ∀ bytes, got = some bytes → bytes.size = n ∧
      Step m.core [.read ⟨s, va.vpnFloor⟩ va.pageOffset bytes] m.core := by
  obtain ⟨found, _, h₁, h⟩ := bind_ok.1 h
  obtain ⟨hfound, rfl⟩ := mapping?_core h₁
  cases found with
  | none =>
      obtain ⟨rfl, rfl⟩ := pure_ok.1 h
      exact ⟨rfl, nofun⟩
  | some mapping =>
      obtain ⟨page, _, h₂, h⟩ := bind_ok.1 h
      obtain ⟨rfl, rfl⟩ := readPhys_core h₂
      obtain ⟨rfl, rfl⟩ := pure_ok.1 h
      refine ⟨rfl, fun bytes hb => ?_⟩
      obtain rfl := Option.some.inj hb
      exact ⟨Array.size_ofFn, .read hfound.symm fits⟩

theorem writeMapped_core {bytes : Array UInt8} {done : Bool}
    (fits : va.pageOffset + bytes.size ≤ pageSize) (h : writeMapped s va bytes m = .ok done m') :
    (done = true ∧ Step m.core [.write ⟨s, va.vpnFloor⟩ va.pageOffset bytes] m'.core) ∨
      (done = false ∧ m' = m) := by
  obtain ⟨found, _, h₁, h⟩ := bind_ok.1 h
  obtain ⟨hfound, rfl⟩ := mapping?_core h₁
  cases found with
  | none =>
      obtain ⟨rfl, rfl⟩ := pure_ok.1 h
      exact .inr ⟨rfl, rfl⟩
  | some mapping =>
      dsimp only at h
      split at h
      · next hw =>
          obtain ⟨page, _, h₂, h⟩ := bind_ok.1 h
          obtain ⟨rfl, rfl⟩ := readPhys_core h₂
          obtain ⟨_, m₁, h₃, h⟩ := bind_ok.1 h
          obtain ⟨_, h₄, rfl⟩ := bind_pure_ok.1 h
          refine .inl ⟨rfl, ?_⟩
          rw [setDirty_core h₄, writePhys_core h₃]
          exact .write hfound.symm hw fits
      · obtain ⟨rfl, rfl⟩ := pure_ok.1 h
        exact .inr ⟨rfl, rfl⟩

def pieceStart (offset length i : Nat) : Nat := min length (i * pageSize - offset)

theorem pieceStart_zero (offset length : Nat) : pieceStart offset length 0 = 0 := by
  simp only [pieceStart, Nat.zero_mul, Nat.zero_sub, Nat.min_zero]

theorem pieceStart_pieceCount (offset length : Nat) :
    pieceStart offset length (pieceCount offset length) = length := by
  unfold pieceStart pieceCount
  split
  · next h => rw [h, Nat.zero_min]
  · simp only [pageSize]
    omega

theorem piece_eq {offset length i : Nat} (ho : offset < pageSize)
    (hi : i < pieceCount offset length) :
    piece offset length i = (pieceStart offset length i,
      pieceStart offset length (i + 1) - pieceStart offset length i) := by
  have hwithin := piece_within ho hi rfl
  simp only [piece, pieceStart, Prod.mk.injEq, pageSize] at hwithin ⊢
  omega

theorem pieceStart_le_succ (offset length i : Nat) :
    pieceStart offset length i ≤ pieceStart offset length (i + 1) := by
  simp only [pieceStart, pageSize]
  omega

theorem VirtAddr.pageOffset_lt (va : VirtAddr) : va.pageOffset < pageSize :=
  Nat.mod_lt _ (by decide)

theorem piece_fits {offset length i : Nat} (ho : va.pageOffset = offset)
    (hi : i < pieceCount offset length) :
    (va.advance (pieceStart offset length i)).pageOffset +
      (pieceStart offset length (i + 1) - pieceStart offset length i) ≤ pageSize := by
  subst ho
  have hwithin := piece_within va.pageOffset_lt hi (piece_eq va.pageOffset_lt hi)
  rw [VirtAddr.pageOffset_advance]
  have hmod : (va.val + pieceStart va.pageOffset length i) % pageSize =
      (va.pageOffset + pieceStart va.pageOffset length i) % pageSize := by
    simp only [VirtAddr.pageOffset, Nat.mod_add_mod]
  rw [hmod]
  exact hwithin.2.2

/-! The pieces of a write. -/

section Pieces

variable {bytes : Array UInt8} {count i : Nat}

theorem size_extract_piece (offset i : Nat) : (bytes.extract (pieceStart offset bytes.size i)
    (pieceStart offset bytes.size (i + 1))).size =
      pieceStart offset bytes.size (i + 1) - pieceStart offset bytes.size i := by
  have hend : pieceStart offset bytes.size (i + 1) ≤ bytes.size := Nat.min_le_left _ _
  rw [Array.size_extract, Nat.min_eq_left hend]

theorem extract_fits (hi : i < pieceCount va.pageOffset bytes.size) :
    (va.advance (pieceStart va.pageOffset bytes.size i)).pageOffset +
      (bytes.extract (pieceStart va.pageOffset bytes.size i)
        (pieceStart va.pageOffset bytes.size (i + 1))).size ≤ pageSize := by
  rw [size_extract_piece]
  exact piece_fits rfl hi

theorem drop_pieceStart (offset i : Nat) : bytes.toList.drop (pieceStart offset bytes.size i) =
    (bytes.extract (pieceStart offset bytes.size i) (pieceStart offset bytes.size (i + 1))).toList ++
      bytes.toList.drop (pieceStart offset bytes.size (i + 1)) := by
  rw [Array.toList_extract, List.extract_eq_take_drop]
  conv_lhs => rw [← List.take_append_drop (pieceStart offset bytes.size (i + 1) -
    pieceStart offset bytes.size i) (bytes.toList.drop _)]
  rw [List.drop_drop, Nat.add_sub_cancel' (pieceStart_le_succ offset bytes.size i)]

theorem writePieces_succ (hi : i < pieceCount va.pageOffset bytes.size) :
    writePieces s va sp bytes (count + 1) i =
      (writePiece s (va.advance (pieceStart va.pageOffset bytes.size i)) sp
        (bytes.extract (pieceStart va.pageOffset bytes.size i)
          (pieceStart va.pageOffset bytes.size (i + 1))) >>= fun done =>
        if done then writePieces s va sp bytes count (i + 1) else pure false) := by
  rw [writePieces, piece_eq va.pageOffset_lt hi]
  dsimp only
  rw [Nat.add_sub_cancel' (pieceStart_le_succ _ _ _)]

end Pieces

theorem Deed.allLoads_read {bytes : Array UInt8} (fits : va.pageOffset + bytes.size ≤ pageSize) :
    allLoads [.read ⟨s, va.vpnFloor⟩ va.pageOffset bytes] = ByteAt.along s va bytes.toList :=
  (List.append_nil _).trans (ByteAt.row_eq_along fits)

theorem Deed.allStores_write {bytes : Array UInt8} (fits : va.pageOffset + bytes.size ≤ pageSize) :
    allStores [.write ⟨s, va.vpnFloor⟩ va.pageOffset bytes] = ByteAt.along s va bytes.toList :=
  (List.append_nil _).trans (ByteAt.row_eq_along fits)

theorem readPiece_core {n : Nat} {got : Option (Array UInt8)} (hs : m.core.Sound)
    (fits : va.pageOffset + n ≤ pageSize) (h : readPiece s va sp n m = .ok got m') :
    ∃ ds, Steps m.core ds m'.core ∧ (∀ d ∈ ds, d.Reads s (· = va)) ∧
      (got = none → Deed.allLoads ds = []) ∧
      ∀ bytes, got = some bytes →
        bytes.size = n ∧ Deed.allLoads ds = ByteAt.along s va bytes.toList := by
  obtain ⟨first, m₁, h₁, h⟩ := bind_ok.1 h
  obtain ⟨rfl, hfirst⟩ := readMapped_core fits h₁
  cases first with
  | some bytes =>
      obtain ⟨rfl, rfl⟩ := pure_ok.1 h
      obtain ⟨rfl, hstep⟩ := hfirst bytes rfl
      refine ⟨_, hstep.steps, fun d hd => ⟨va, rfl, .inr ⟨bytes, List.mem_singleton.1 hd⟩⟩, nofun,
        fun g hg => ?_⟩
      obtain rfl := Option.some.inj hg
      exact ⟨rfl, Deed.allLoads_read fits⟩
  | none =>
      obtain ⟨resolved, m₂, h₂, h⟩ := bind_ok.1 h
      obtain ⟨ds, hsteps, hds⟩ := faultIn_core hs h₂
      have hsilent := (Deed.Faults.all_silent hds).1
      have hfaults : ∀ d ∈ ds, d.Reads s (· = va) := fun d hd => ⟨va, rfl, .inl (hds d hd)⟩
      cases resolved with
      | false =>
          obtain ⟨rfl, rfl⟩ := pure_ok.1 h
          exact ⟨ds, hsteps, hfaults, fun _ => hsilent, nofun⟩
      | true =>
          obtain ⟨rfl, hsecond⟩ := readMapped_core fits h
          cases got with
          | none => exact ⟨ds, hsteps, hfaults, fun _ => hsilent, nofun⟩
          | some bytes =>
              obtain ⟨rfl, hstep⟩ := hsecond bytes rfl
              refine ⟨_, hsteps.tail hstep, fun d hd => ?_, nofun, fun g hg => ?_⟩
              · rcases List.mem_append.1 hd with hd | hd
                · exact hfaults d hd
                · exact ⟨va, rfl, .inr ⟨bytes, List.mem_singleton.1 hd⟩⟩
              · obtain rfl := Option.some.inj hg
                rw [Deed.allLoads_append, hsilent]
                exact ⟨rfl, Deed.allLoads_read fits⟩

theorem writePiece_parts {bytes : Array UInt8} {done : Bool}
    (h : writePiece s va sp bytes m = .ok done m') :
    (done = true ∧ writeMapped s va bytes m = .ok true m') ∨
    ∃ m₁, writeMapped s va bytes m = .ok false m₁ ∧
      ((done = false ∧ faultIn s va sp true m₁ = .ok false m') ∨
        ∃ m₂, faultIn s va sp true m₁ = .ok true m₂ ∧ writeMapped s va bytes m₂ = .ok done m') := by
  obtain ⟨first, m₁, h₁, h⟩ := bind_ok.1 h
  cases first with
  | true =>
      obtain ⟨rfl, rfl⟩ := pure_ok.1 h
      exact .inl ⟨rfl, h₁⟩
  | false =>
      obtain ⟨resolved, m₂, h₂, h⟩ := bind_ok.1 h
      cases resolved with
      | true => exact .inr ⟨m₁, h₁, .inr ⟨m₂, h₂, h⟩⟩
      | false =>
          obtain ⟨rfl, rfl⟩ := pure_ok.1 h
          exact .inr ⟨m₁, h₁, .inl ⟨rfl, h₂⟩⟩

theorem writePiece_core {bytes : Array UInt8} {done : Bool} (hs : m.core.Sound)
    (fits : va.pageOffset + bytes.size ≤ pageSize) (h : writePiece s va sp bytes m = .ok done m') :
    ∃ ds, Steps m.core ds m'.core ∧ (∀ d ∈ ds, d.Writes s (· = va)) ∧
      Deed.allStores ds = if done then ByteAt.along s va bytes.toList else [] := by
  have writes {d : Deed} (hd : d ∈ [.write ⟨s, va.vpnFloor⟩ va.pageOffset bytes]) :
      d.Writes s (· = va) := ⟨va, rfl, .inr ⟨bytes, List.mem_singleton.1 hd⟩⟩
  rcases writePiece_parts h with ⟨rfl, written⟩ | ⟨m₁, refused, rest⟩
  · obtain ⟨-, hstep⟩ := (writeMapped_core fits written).resolve_right nofun
    exact ⟨_, hstep.steps, fun d => writes, Deed.allStores_write fits⟩
  · obtain ⟨-, rfl⟩ := (writeMapped_core fits refused).resolve_left nofun
    have faulted {resolved : Bool} {m₂ : Machine} (h : faultIn s va sp true m₁ = .ok resolved m₂) :
        ∃ ds, Steps m₁.core ds m₂.core ∧ (∀ d ∈ ds, d.Writes s (· = va)) ∧ Deed.allStores ds = [] := by
      obtain ⟨ds, hsteps, hds⟩ := faultIn_core hs h
      exact ⟨ds, hsteps, fun d hd => ⟨va, rfl, .inl (hds d hd)⟩, (Deed.Faults.all_silent hds).2⟩
    rcases rest with ⟨rfl, failed⟩ | ⟨m₂, resolved, again⟩
    · exact faulted failed
    · obtain ⟨ds, hsteps, hfaults, hsilent⟩ := faulted resolved
      rcases writeMapped_core fits again with ⟨rfl, hstep⟩ | ⟨rfl, rfl⟩
      · refine ⟨_, hsteps.tail hstep, fun d hd => ?_, ?_⟩
        · exact (List.mem_append.1 hd).elim (hfaults d) writes
        · rw [Deed.allStores_append, hsilent]
          exact Deed.allStores_write fits
      · exact ⟨ds, hsteps, hfaults, hsilent⟩

def VirtAddr.Spans (va : VirtAddr) (length : Nat) (x : VirtAddr) : Prop :=
  ∃ k < length, x = va.advance k

theorem VirtAddr.spans_piece {length i : Nat} (hi : i < pieceCount va.pageOffset length) :
    va.Spans length (va.advance (pieceStart va.pageOffset length i)) := by
  have hwithin := piece_within va.pageOffset_lt hi (piece_eq va.pageOffset_lt hi)
  exact ⟨_, by omega, rfl⟩

theorem Deed.Reads.mono {P Q : VirtAddr → Prop} {d : Deed} (h : d.Reads s P) (hPQ : ∀ x, P x → Q x) :
    d.Reads s Q := by
  obtain ⟨x, hx, hd⟩ := h
  exact ⟨x, hPQ x hx, hd⟩

theorem Deed.Writes.mono {P Q : VirtAddr → Prop} {d : Deed} (h : d.Writes s P)
    (hPQ : ∀ x, P x → Q x) : d.Writes s Q := by
  obtain ⟨x, hx, hd⟩ := h
  exact ⟨x, hPQ x hx, hd⟩

theorem readPieces_core {length count i : Nat} {got : Array UInt8} {result : Option (Array UInt8)}
    (hi : i + count = pieceCount va.pageOffset length) (hs : m.core.Sound)
    (h : readPieces s va sp length count i got m = .ok result m') :
    ∃ ds new, Steps m.core ds m'.core ∧ (∀ d ∈ ds, d.Reads s (va.Spans length)) ∧
      Deed.allLoads ds = ByteAt.along s (va.advance (pieceStart va.pageOffset length i)) new ∧
      ∀ bytes, result = some bytes → bytes.toList = got.toList ++ new ∧
        pieceStart va.pageOffset length i + new.length = length := by
  induction count generalizing m i got with
  | zero =>
      obtain ⟨rfl, rfl⟩ := pure_ok.1 h
      refine ⟨[], [], .refl _, nofun, rfl, fun bytes hb => ?_⟩
      obtain rfl := Option.some.inj hb
      obtain rfl : i = pieceCount va.pageOffset length := hi
      exact ⟨(List.append_nil _).symm, pieceStart_pieceCount _ _⟩
  | succ count ih =>
      have hlt : i < pieceCount va.pageOffset length := by omega
      have hspan := VirtAddr.spans_piece hlt
      unfold readPieces at h
      rw [piece_eq va.pageOffset_lt hlt] at h
      obtain ⟨first, m₁, h₁, h⟩ := bind_ok.1 h
      obtain ⟨ds, hsteps, hreads, hnone, hsome⟩ := readPiece_core hs (piece_fits rfl hlt) h₁
      replace hreads : ∀ d ∈ ds, d.Reads s (va.Spans length) :=
        fun d hd => (hreads d hd).mono fun x hx => hx ▸ hspan
      cases first with
      | none =>
          obtain ⟨rfl, rfl⟩ := pure_ok.1 h
          exact ⟨ds, [], hsteps, hreads, hnone rfl, nofun⟩
      | some bytes =>
          obtain ⟨hsize, hloads⟩ := hsome bytes rfl
          obtain ⟨es, new, hrest, hreads', hloads', hresult⟩ :=
            ih (by omega) (hsteps.sound hs) h
          have hle := pieceStart_le_succ va.pageOffset length i
          refine ⟨_, bytes.toList ++ new, hsteps.trans hrest, fun d hd => ?_, ?_, fun all hall => ?_⟩
          · rcases List.mem_append.1 hd with hd | hd
            · exact hreads d hd
            · exact hreads' d hd
          · rw [Deed.allLoads_append, hloads, hloads', ByteAt.along_append,
              VirtAddr.advance_advance, Array.length_toList, hsize, Nat.add_sub_cancel' hle]
          · obtain ⟨hbytes, hlength⟩ := hresult all hall
            rw [hbytes, Array.toList_append, List.append_assoc, List.length_append,
              Array.length_toList, hsize]
            exact ⟨rfl, by omega⟩

theorem userRead_core {length : Nat} {result : Option (Array UInt8)} (hs : m.core.Sound)
    (h : userRead s va length sp m = .ok result m') :
    ∃ ds shown, Steps m.core ds m'.core ∧ (∀ d ∈ ds, d.Reads s (va.Spans length)) ∧
      Deed.allLoads ds = ByteAt.along s va shown ∧
      ∀ bytes, result = some bytes → bytes.toList = shown ∧ bytes.size = length := by
  obtain ⟨ds, new, hsteps, hreads, hloads, hresult⟩ := readPieces_core (Nat.zero_add _) hs h
  rw [pieceStart_zero, VirtAddr.advance_zero] at hloads
  refine ⟨ds, new, hsteps, hreads, hloads, fun bytes hb => ?_⟩
  obtain ⟨hbytes, hlength⟩ := hresult bytes hb
  rw [pieceStart_zero, Nat.zero_add] at hlength
  have hlist : bytes.toList = new := hbytes.trans (List.nil_append _)
  exact ⟨hlist, by rw [← Array.length_toList, hlist, hlength]⟩

theorem writePieces_core {bytes : Array UInt8} {count i : Nat} {done : Bool}
    (hi : i + count = pieceCount va.pageOffset bytes.size) (hs : m.core.Sound)
    (h : writePieces s va sp bytes count i m = .ok done m') :
    ∃ ds new, Steps m.core ds m'.core ∧ (∀ d ∈ ds, d.Writes s (va.Spans bytes.size)) ∧
      Deed.allStores ds =
        ByteAt.along s (va.advance (pieceStart va.pageOffset bytes.size i)) new ∧
      new <+: bytes.toList.drop (pieceStart va.pageOffset bytes.size i) ∧
      (done = true → new = bytes.toList.drop (pieceStart va.pageOffset bytes.size i)) := by
  induction count generalizing m i with
  | zero =>
      obtain ⟨rfl, rfl⟩ := pure_ok.1 h
      obtain rfl : i = pieceCount va.pageOffset bytes.size := hi
      refine ⟨[], [], .refl _, nofun, rfl, List.nil_prefix, fun _ => ?_⟩
      rw [pieceStart_pieceCount, ← Array.length_toList, List.drop_length]
  | succ count ih =>
      have hlt : i < pieceCount va.pageOffset bytes.size := by omega
      have hspan := VirtAddr.spans_piece hlt
      rw [writePieces_succ hlt] at h
      obtain ⟨first, m₁, h₁, h⟩ := bind_ok.1 h
      obtain ⟨ds, hsteps, hwrites, hstores⟩ := writePiece_core hs (extract_fits hlt) h₁
      replace hwrites : ∀ d ∈ ds, d.Writes s (va.Spans bytes.size) :=
        fun d hd => (hwrites d hd).mono fun x hx => hx ▸ hspan
      cases first with
      | false =>
          obtain ⟨rfl, rfl⟩ := pure_ok.1 h
          exact ⟨ds, [], hsteps, hwrites, hstores, List.nil_prefix, nofun⟩
      | true =>
          obtain ⟨es, new, hrest, hwrites', hstores', hprefix, hdone⟩ :=
            ih (by omega) (hsteps.sound hs) h
          refine ⟨_, (bytes.extract (pieceStart va.pageOffset bytes.size i)
            (pieceStart va.pageOffset bytes.size (i + 1))).toList ++ new, hsteps.trans hrest,
            fun d hd => ?_, ?_, ?_, fun hd => ?_⟩
          · exact (List.mem_append.1 hd).elim (hwrites d) (hwrites' d)
          · rw [Deed.allStores_append, hstores, hstores', if_pos rfl, ByteAt.along_append,
              VirtAddr.advance_advance, Array.length_toList, size_extract_piece,
              Nat.add_sub_cancel' (pieceStart_le_succ _ _ _)]
          · rw [drop_pieceStart]
            exact List.prefix_append_right_inj _ |>.2 hprefix
          · rw [drop_pieceStart, hdone hd]

theorem userWrite_core {bytes : Array UInt8} {done : Bool} (hs : m.core.Sound)
    (h : userWrite s va bytes sp m = .ok done m') :
    ∃ ds taken, Steps m.core ds m'.core ∧ (∀ d ∈ ds, d.Writes s (va.Spans bytes.size)) ∧
      Deed.allStores ds = ByteAt.along s va taken ∧ taken <+: bytes.toList ∧
      (done = true → taken = bytes.toList) := by
  obtain ⟨ds, new, hsteps, hwrites, hstores, hprefix, hdone⟩ :=
    writePieces_core (Nat.zero_add _) hs h
  rw [pieceStart_zero, VirtAddr.advance_zero] at hstores
  rw [pieceStart_zero, List.drop_zero] at hprefix hdone
  exact ⟨ds, new, hsteps, hwrites, hstores, hprefix, hdone⟩

end DemandPaging
