import DemandPaging.Proofs.Accesses
import DemandPaging.Proofs.Surroundings

/-!
The requests of the kernel, as runs of steps of the core. `Operation.Does` says which deeds may
stand behind a request and its answer.
-/

namespace DemandPaging

open DemandPaging.Core

variable {m m' : Machine} {s : SpaceId} {va : VirtAddr} {u : Unit}

theorem newBacking_core {id : FileId} {offset count : Nat} {backing : FileBacking}
    (h : newBacking id offset count m = .ok backing m') :
    m'.core = m.core ∧ backing.file = id ∧ backing.offset = offset ∧ backing.readBytes = count := by
  obtain ⟨_, m₁, h₁, h⟩ := bind_ok.1 h
  unfold FileBacking.ofHandle at h
  split at h
  · obtain ⟨rfl, rfl⟩ := pure_ok.1 h
    exact ⟨openFile_core h₁, rfl, rfl, rfl⟩
  · exact (throw_ok.1 h).elim

theorem addProgram_core {routine : Program} {id : ProgramId} (hs : m.core.Sound)
    (h : addProgram routine m = .ok id m') :
    Step m.core [] m'.core ∧ m'.core.programs id = some routine.routine := by
  have h' := modifyGet_ok.1 h
  simp only [Prod.mk.injEq] at h'
  obtain ⟨rfl, rfl⟩ := h'
  have hnone : (m.programs.find? m.programs.size).map Program.routine = none :=
    hs.programs _ (Nat.le_refl _)
  have hfresh : m.programs.size ∉ m.programs.keys := by
    intro hmem
    have hfound := Table.mem_keys.1 hmem
    rw [Option.map_eq_none_iff.1 hnone] at hfound
    exact nomatch hfound
  have hstep : Step m.core [] { m.core with
      programs := Function.update m.core.programs m.core.programCount (some routine.routine)
      programCount := m.core.programCount + 1 } := .learn
  have hcore : Machine.core { m with
      programs := m.programs.insert m.programs.size routine } = { m.core with
        programs := Function.update m.core.programs m.core.programCount (some routine.routine)
        programCount := m.core.programCount + 1 } := by
    simp only [Machine.core, Table.size_insert_of_not_mem routine hfresh, Core.mk.injEq, true_and,
      and_true]
    refine ⟨rfl, ?_⟩
    funext id
    rw [Table.find?_insert_eq]
    by_cases hid : id = m.programs.size
    · subst hid
      simp only [Function.update_self, Option.map_some]
    · simp only [Function.update_of_ne hid]
  rw [hcore]
  exact ⟨hstep, Function.update_self _ _ _⟩

def TargetRequest.Names : TargetRequest → PageTarget → Prop
  | anon, target => target = .anon
  | file id offset count, target =>
      ∃ backing : FileBacking, target = .file backing ∧ backing.file = id ∧
        backing.offset = offset ∧ backing.readBytes = count

/-- What a request for an initializer stands for, when the programs are known by their numbers. -/
def InitializerRequest.Names (c : Core) : InitializerRequest → Initializer → Prop
  | segment id offset count, init =>
      ∃ backing : FileBacking, init = .segment backing ∧ backing.file = id ∧
        backing.offset = offset ∧ backing.readBytes = count
  | program routine, init =>
      ∃ id, init = .program id ∧ Core.Keeps (c.programs id) routine.run

def InitializerRequest.NamesAll (c : Core) :
    Option InitializerRequest → Option Initializer → Prop
  | none, init => init = none
  | some request, init => ∃ i, init = some i ∧ request.Names c i

def KindRequest.Names (c : Core) : KindRequest → PageKind → Prop
  | anon, kind => kind = .anon none
  | file id offset count, kind =>
      ∃ backing : FileBacking, kind = .file backing ∧ backing.file = id ∧
        backing.offset = offset ∧ backing.readBytes = count
  | uninit target init, kind => ∃ t i, kind = .uninit t i ∧ target.Names t ∧
      InitializerRequest.NamesAll c init i

theorem InitializerRequest.NamesAll.later {c c' : Core} {ds : List Deed}
    {request : Option InitializerRequest} {init : Option Initializer} (hs : c.Sound)
    (run : Steps c ds c') (h : NamesAll c request init) : NamesAll c' request init := by
  cases request with
  | none => exact h
  | some request =>
      obtain ⟨i, hi, hnames⟩ := h
      refine ⟨i, hi, ?_⟩
      cases request with
      | segment => exact hnames
      | program routine =>
          obtain ⟨id, hid, hkeeps⟩ := hnames
          exact ⟨id, hid, run.keeps hs hkeeps⟩

theorem KindRequest.Names.later {c c' : Core} {ds : List Deed} {request : KindRequest}
    {kind : PageKind} (hs : c.Sound) (run : Steps c ds c') (h : request.Names c kind) :
    request.Names c' kind := by
  cases request with
  | uninit =>
      obtain ⟨t, i, hk, ht, hi⟩ := h
      exact ⟨t, i, hk, ht, hi.later hs run⟩
  | _ => exact h

theorem KindRequest.Names.no_slot {c : Core} {request : KindRequest} {kind : PageKind}
    (h : request.Names c kind) (slot : SwapSlot) : kind ≠ .anon (some slot) := by
  rintro rfl
  cases request with
  | anon => exact nomatch h
  | file =>
      obtain ⟨backing, hk, -⟩ := h
      exact nomatch hk
  | uninit =>
      obtain ⟨t, i, hk, -⟩ := h
      exact nomatch hk

theorem TargetRequest.make_core {request : TargetRequest} {target : PageTarget}
    (h : request.make m = .ok target m') : m'.core = m.core ∧ request.Names target := by
  cases request with
  | anon =>
      obtain ⟨rfl, rfl⟩ := pure_ok.1 h
      exact ⟨rfl, rfl⟩
  | file id offset count =>
      obtain ⟨backing, h₁, rfl⟩ := bind_pure_ok.1 h
      obtain ⟨hm, hbacking⟩ := newBacking_core h₁
      exact ⟨hm, backing, rfl, hbacking⟩

theorem makeInitializer_core {request : Option InitializerRequest} {init : Option Initializer}
    (hs : m.core.Sound) (h : makeInitializer request m = .ok init m') :
    Steps m.core [] m'.core ∧ InitializerRequest.NamesAll m'.core request init := by
  cases request with
  | none =>
      obtain ⟨rfl, rfl⟩ := pure_ok.1 h
      exact ⟨.refl _, rfl⟩
  | some request =>
      obtain ⟨i, h₁, rfl⟩ := bind_pure_ok.1 h
      cases request with
      | segment id offset count =>
          obtain ⟨backing, m₂, h₂, h₁⟩ := bind_ok.1 h₁
          obtain ⟨rfl, rfl⟩ := pure_ok.1 h₁
          obtain ⟨hm, hbacking⟩ := newBacking_core h₂
          exact ⟨hm ▸ .refl _, _, rfl, backing, rfl, hbacking⟩
      | program routine =>
          obtain ⟨id, m₂, h₂, h₁⟩ := bind_ok.1 h₁
          obtain ⟨rfl, rfl⟩ := pure_ok.1 h₁
          obtain ⟨hstep, hfound⟩ := addProgram_core hs h₂
          exact ⟨hstep.steps, _, rfl, id, rfl, routine.calls, hfound⟩

theorem KindRequest.make_core {request : KindRequest} {kind : PageKind} (hs : m.core.Sound)
    (h : request.make m = .ok kind m') : Steps m.core [] m'.core ∧ request.Names m'.core kind := by
  cases request with
  | anon =>
      obtain ⟨rfl, rfl⟩ := pure_ok.1 h
      exact ⟨.refl _, rfl⟩
  | file id offset count =>
      obtain ⟨backing, h₁, rfl⟩ := bind_pure_ok.1 h
      obtain ⟨hm, hbacking⟩ := newBacking_core h₁
      exact ⟨hm ▸ .refl _, backing, rfl, hbacking⟩
  | uninit target init =>
      obtain ⟨t, m₁, h₁, h⟩ := bind_ok.1 h
      obtain ⟨i, h₂, rfl⟩ := bind_pure_ok.1 h
      obtain ⟨hm₁, htarget⟩ := TargetRequest.make_core h₁
      obtain ⟨hsteps, hinit⟩ := makeInitializer_core (hm₁ ▸ hs) h₂
      exact ⟨hm₁ ▸ hsteps, t, i, rfl, htarget, hinit⟩

theorem removePages_eq (s : SpaceId) (vpns : List PageNum) :
    removePages s vpns = destroyPages s (vpns.map fun vpn => vpn.pageStart.vpnFloor) := by
  induction vpns with
  | nil => rfl
  | cons vpn rest ih =>
      simp only [removePages, List.map_cons, destroyPages, ih]
      rfl

def PageRef.within (s : SpaceId) (start : PageNum) (j : Nat) : PageRef :=
  ⟨s, (PageNum.pageStart ⟨start.val + j⟩).vpnFloor⟩

theorem removeRegion_core {start : PageNum} {n : Nat} (hs : m.core.Sound)
    (h : removePages s (start.rangeTo ⟨start.val + n⟩) m = .ok u m') :
    ∃ drops, Steps m.core drops m'.core ∧
      (∀ d ∈ drops, ∃ j < n, d = .drop (PageRef.within s start j)) ∧
      ∀ j < n, m'.core.pages.find? (PageRef.within s start j) = none := by
  rw [removePages_eq] at h
  obtain ⟨drops, hsteps, hdrops, hgone⟩ := destroyPages_core hs h
  refine ⟨drops, hsteps, fun d hd => ?_, fun j hj => hgone _ ?_⟩
  · obtain ⟨vpn, hvpn, rfl⟩ := hdrops d hd
    obtain ⟨v, hv, rfl⟩ := List.mem_map.1 hvpn
    obtain ⟨hle, hlt⟩ := PageNum.mem_range.1 hv
    refine ⟨v.val - start.val, by dsimp only at hlt; omega, ?_⟩
    unfold PageRef.within
    rw [Nat.add_sub_cancel' hle]
  · refine List.mem_map.2 ⟨⟨start.val + j⟩, PageNum.mem_range.2 ⟨?_, ?_⟩, rfl⟩
    · exact Nat.le_add_right _ _
    · dsimp only
      omega

theorem checkedAdd_ok {a b n : Nat} (h : checkedAdd a b m = .ok n m') : n = a + b ∧ m = m' := by
  unfold checkedAdd at h
  split at h
  · obtain ⟨rfl, rfl⟩ := pure_ok.1 h
    exact ⟨rfl, rfl⟩
  · exact (throw_ok.1 h).elim

theorem checkedSub_ok {a b n : Nat} (h : checkedSub a b m = .ok n m') : n = a - b ∧ m = m' := by
  unfold checkedSub at h
  split at h
  · obtain ⟨rfl, rfl⟩ := pure_ok.1 h
    exact ⟨rfl, rfl⟩
  · exact (throw_ok.1 h).elim

theorem checkedMul_ok {a b n : Nat} (h : checkedMul a b m = .ok n m') : n = a * b ∧ m = m' := by
  unfold checkedMul at h
  split at h
  · obtain ⟨rfl, rfl⟩ := pure_ok.1 h
    exact ⟨rfl, rfl⟩
  · exact (throw_ok.1 h).elim

namespace MapRequest

def backing (r : MapRequest) (i : Nat) : FileBacking where
  file := r.file
  offset := r.offset + i * pageSize
  readBytes := min (min pageSize (r.length - i * pageSize)) (r.fileLength - (r.offset + i * pageSize))
  readBytes_le := Nat.le_trans (Nat.min_le_left _ _) (Nat.min_le_left _ _)

def ref (r : MapRequest) (i : Nat) : PageRef := .within r.space r.start i

def page (r : MapRequest) (i : Nat) : Page :=
  .fresh r.space r.writable (.uninit (.file (r.backing i)) none)

def adds (r : MapRequest) : (count i : Nat) → List Deed
  | 0, _ => []
  | count + 1, i => .add (r.ref i) (r.page i) :: r.adds count (i + 1)

variable {r : MapRequest} {count i : Nat} {done : Bool}

theorem mem_adds {d : Deed} :
    d ∈ r.adds count i ↔ ∃ j, i ≤ j ∧ j < i + count ∧ d = .add (r.ref j) (r.page j) := by
  induction count generalizing i with
  | zero =>
      simp only [adds, List.not_mem_nil, false_iff, not_exists, not_and]
      omega
  | succ count ih =>
      simp only [adds, List.mem_cons, ih]
      constructor
      · rintro (rfl | ⟨j, hi, hj, rfl⟩)
        · exact ⟨i, Nat.le_refl i, by omega, rfl⟩
        · exact ⟨j, by omega, by omega, rfl⟩
      · rintro ⟨j, hi, hj, rfl⟩
        rcases Nat.eq_or_lt_of_le hi with rfl | hi
        · exact .inl rfl
        · exact .inr ⟨j, hi, by omega, rfl⟩

theorem declarePage_core (h : r.declarePage i m = .ok done m') :
    (done = true ∧ m.core.pages.find? (r.ref i) = none ∧
      m'.core = m.core.setPage (r.ref i) (r.page i)) ∨ (done = false ∧ m'.core = m.core) := by
  obtain ⟨before, _, h₁, h⟩ := bind_ok.1 h
  obtain ⟨rfl, rfl⟩ := checkedMul_ok h₁
  obtain ⟨offset, _, h₂, h⟩ := bind_ok.1 h
  obtain ⟨rfl, rfl⟩ := checkedAdd_ok h₂
  obtain ⟨left, _, h₃, h⟩ := bind_ok.1 h
  obtain ⟨rfl, rfl⟩ := checkedSub_ok h₃
  obtain ⟨granted, m₁, h₄, h⟩ := bind_ok.1 h
  have hm₁ := reopen_core h₄
  cases granted with
  | false =>
      obtain ⟨rfl, rfl⟩ := pure_ok.1 h
      exact .inr ⟨rfl, hm₁⟩
  | true =>
      obtain ⟨backing, m₂, h₅, h⟩ := bind_ok.1 h
      obtain ⟨hbacking, rfl⟩ : backing = r.backing i ∧ m₂ = m₁ := by
        unfold FileBacking.ofHandle at h₅
        split at h₅
        · obtain ⟨rfl, rfl⟩ := pure_ok.1 h₅
          exact ⟨rfl, rfl⟩
        · exact (throw_ok.1 h₅).elim
      subst hbacking
      obtain ⟨vpn, _, h₆, h⟩ := bind_ok.1 h
      obtain ⟨rfl, rfl⟩ := checkedAdd_ok h₆
      unfold declare at h
      split at h
      · rcases addPage_core h with ⟨rfl, vacant, hm'⟩ | ⟨rfl, -, hm'⟩
        · exact .inl ⟨rfl, hm₁ ▸ vacant, hm₁ ▸ hm'⟩
        · exact .inr ⟨rfl, hm'.trans hm₁⟩
      · obtain ⟨_, m₃, h₇, h⟩ := bind_ok.1 h
        obtain ⟨_, h₈, rfl⟩ := bind_pure_ok.1 h
        exact .inr ⟨rfl, (PageKind.close_core h₈).trans ((emit_core h₇).trans hm₁)⟩

theorem declarePages_core (hs : m.core.Sound) (h : r.declarePages count i m = .ok done m') :
    ∃ n ≤ count, (∀ j, i ≤ j → j < i + n → m.core.pages.find? (r.ref j) = none) ∧
      ((done = true ∧ n = count ∧ Steps m.core (r.adds count i) m'.core) ∨
        (done = false ∧ ∃ drops, Steps m.core (r.adds n i ++ drops) m'.core ∧
          (∀ d ∈ drops, ∃ j < i + n, d = .drop (r.ref j)) ∧
          ∀ j < i + n, m'.core.pages.find? (r.ref j) = none)) := by
  induction count generalizing m i with
  | zero =>
      obtain ⟨rfl, rfl⟩ := pure_ok.1 h
      exact ⟨0, Nat.le_refl 0, fun j hi hj => by omega, .inl ⟨rfl, rfl, .refl _⟩⟩
  | succ count ih =>
      obtain ⟨first, m₁, h₁, h⟩ := bind_ok.1 h
      rcases declarePage_core h₁ with ⟨rfl, vacant, hm₁⟩ | ⟨rfl, hm₁⟩
      · have hstep : Step m.core [.add (r.ref i) (r.page i)] m₁.core := hm₁ ▸ .add vacant nofun
        obtain ⟨n, hn, hvacant, hrest⟩ := ih (hstep.sound hs) h
        refine ⟨n + 1, by omega, fun j hi hj => ?_, ?_⟩
        · rcases Nat.eq_or_lt_of_le hi with rfl | hi
          · exact vacant
          · have hnone := hvacant j hi (by omega)
            rw [hm₁] at hnone
            by_cases hij : r.ref i = r.ref j
            · exact hij ▸ vacant
            · exact (if_neg hij).symm.trans ((Table.find?_insert _ _ _ _).symm.trans hnone)
        · rw [Nat.add_right_comm] at hrest
          rcases hrest with ⟨hdone, rfl, hsteps⟩ | ⟨hdone, drops, hsteps, hdrops, hgone⟩
          · exact .inl ⟨hdone, rfl, hstep.steps.trans hsteps⟩
          · exact .inr ⟨hdone, drops, hstep.steps.trans hsteps, hdrops, hgone⟩
      · obtain ⟨stop, _, h₂, h⟩ := bind_ok.1 h
        obtain ⟨rfl, rfl⟩ := checkedAdd_ok h₂
        obtain ⟨_, h₃, rfl⟩ := bind_pure_ok.1 h
        obtain ⟨drops, hsteps, hdrops, hgone⟩ := removeRegion_core (hm₁ ▸ hs) h₃
        exact ⟨0, Nat.zero_le _, fun j hi hj => by omega,
          .inr ⟨rfl, drops, hm₁ ▸ hsteps, hdrops, hgone⟩⟩

end MapRequest

theorem PageRef.within_eq {start : PageNum} {j : Nat} (h : (start.val + j) * pageSize < wordBound) :
    PageRef.within s start j = ⟨s, ⟨start.val + j⟩⟩ := by
  simp only [pageSize, wordBound] at h
  simp only [within, PageNum.pageStart, VirtAddr.ofBits, VirtAddr.vpnFloor, PageRef.mk.injEq,
    PageNum.mk.injEq, pageSize, wordBound, true_and]
  omega

structure MapRequest.Valid (r : MapRequest) (pages : Nat) : Prop where
  count : pages = (r.length + (pageSize - 1)) / pageSize
  positive : 0 < r.length
  user : r.start.val * pageSize + r.length ≤ userSpaceEnd

theorem MapRequest.Valid.ref_eq {r : MapRequest} {pages j : Nat} (h : r.Valid pages)
    (hj : j < pages) : r.ref j = ⟨r.space, ⟨r.start.val + j⟩⟩ := by
  obtain ⟨hcount, hpos, huser⟩ := h
  refine PageRef.within_eq ?_
  simp only [pageSize, userSpaceEnd, wordBound] at *
  omega

/-- Mapping a file adds the pages of the region and puts it down, or leaves all as it was. -/
inductive MapRequest.Serves (r : MapRequest) (va : VirtAddr) (c c' : Core) :
    Except Errno VirtAddr → List Deed → Prop where
  | mapped {pages : Nat} (valid : r.Valid pages) (aligned : va.val = r.start.val * pageSize)
      (vacant : ∀ j < pages, c.pages.find? (r.ref j) = none)
      (run : Steps c (r.adds pages 0 ++ [.chart (c.regions.insert ⟨r.space, r.start⟩ pages)]) c') :
      Serves r va c c' (.ok va) (r.adds pages 0 ++ [.chart (c.regions.insert ⟨r.space, r.start⟩ pages)])
  | refused {e : Errno} {n : Nat} {drops : List Deed}
      (vacant : ∀ j < n, c.pages.find? (r.ref j) = none)
      (run : Steps c (r.adds n 0 ++ drops) c') (undone : ∀ d ∈ drops, ∃ j < n, d = .drop (r.ref j))
      (gone : ∀ j < n, c'.pages.find? (r.ref j) = none) :
      Serves r va c c' (.error e) (r.adds n 0 ++ drops)

theorem MapRequest.Serves.quiet {r : MapRequest} {c c' : Core} {e : Errno} (hc : c' = c) :
    r.Serves va c c' (.error e) [] :=
  @refused r va c c' e 0 [] nofun (hc ▸ .refl _) nofun nofun

theorem MapRequest.serve_core {r : MapRequest} {pages : Nat} {result : Except Errno VirtAddr}
    (valid : r.Valid pages) (aligned : va.val = r.start.val * pageSize) (hs : m.core.Sound)
    (h : (do
      if ← r.declarePages pages 0 then
        modify fun (m : Machine) =>
          { m with regions := m.regions.insert ⟨r.space, r.start⟩ pages }
        emit (.mapped va pages)
        pure (Except.ok va)
      else
        pure (Except.error Errno.noMemory) : KernelM (Except Errno VirtAddr)) m = .ok result m') :
    ∃ ds, r.Serves va m.core m'.core result ds := by
  obtain ⟨declared, m₁, h₁, h⟩ := bind_ok.1 h
  obtain ⟨n, -, hvacant, hrun⟩ := declarePages_core hs h₁
  rw [Nat.zero_add] at hrun
  replace hvacant : ∀ j < n, m.core.pages.find? (r.ref j) = none :=
    fun j hj => hvacant j (Nat.zero_le j) (by omega)
  rcases hrun with ⟨rfl, rfl, hsteps⟩ | ⟨rfl, drops, hsteps, hdrops, hgone⟩
  · obtain ⟨_, m₂, h₂, h⟩ := bind_ok.1 h
    obtain rfl := modify_ok.1 h₂
    obtain ⟨_, h₃, rfl⟩ := bind_pure_ok.1 h
    have hm₃ := emit_core h₃
    have hregions : m₁.core.regions = m.core.regions := by
      refine hsteps.regions fun t ht => ?_
      obtain ⟨j, -, -, hj⟩ := mem_adds.1 ht
      exact nomatch hj
    refine ⟨_, .mapped valid aligned hvacant (hsteps.tail ?_)⟩
    rw [hm₃, ← hregions]
    exact .chart _
  · obtain ⟨rfl, rfl⟩ := pure_ok.1 h
    exact ⟨_, .refused hvacant hsteps hdrops hgone⟩

theorem MapRequest.valid_of_checks {length : Nat} {stop : VirtAddr}
    (hgood : ((va.val ≠ 0 ∧ va.isPageAligned = true) ∧ length ≠ 0))
    (hstop : va.add? length = some stop) (huser : ¬ userSpaceEnd < stop.val) :
    (∀ s writable file fileLength offset,
      Valid ⟨s, va.vpnFloor, length, writable, file, fileLength, offset⟩
        (stop.vpnCeil.val - va.vpnFloor.val)) ∧ va.val = va.vpnFloor.val * pageSize := by
  obtain ⟨v, hv⟩ := va
  unfold VirtAddr.add? VirtAddr.ofNat? at hstop
  split at hstop
  · obtain rfl := Option.some.inj hstop
    obtain ⟨⟨-, haligned⟩, hlength⟩ := hgood
    simp only [VirtAddr.isPageAligned, VirtAddr.pageOffset, beq_iff_eq, pageSize] at haligned
    simp only [userSpaceEnd] at huser
    refine ⟨fun _ _ _ _ _ => ⟨?_, Nat.pos_of_ne_zero hlength, ?_⟩, ?_⟩ <;>
      simp only [VirtAddr.vpnCeil, VirtAddr.vpnFloor, pageSize, userSpaceEnd] <;> omega
  · cases hstop

theorem MapRequest.Serves.run {r : MapRequest} {c c' : Core} {result : Except Errno VirtAddr}
    {ds : List Deed} (h : r.Serves va c c' result ds) : Steps c ds c' := by
  cases h <;> assumption

theorem map_core {length : Nat} {writable : Bool} {file : FileId} {offset : Nat}
    {result : Except Errno VirtAddr} (hs : m.core.Sound)
    (h : map s va length writable file offset m = .ok result m') :
    ∃ ds, MapRequest.Serves ⟨s, va.vpnFloor, length, writable, file,
      (m.core.files file).data.size, offset⟩ va m.core m'.core result ds := by
  unfold map at h
  split at h
  · obtain ⟨_, h₁, rfl⟩ := bind_pure_ok.1 h
    exact ⟨_, .quiet (emit_core h₁)⟩
  · next hgood =>
      simp only [Bool.or_eq_true, not_or, Bool.not_eq_true, Bool.not_eq_false', beq_eq_false_iff_ne]
        at hgood
      cases hstop : va.add? length with
      | none =>
          rw [hstop] at h
          obtain ⟨rfl, rfl⟩ := pure_ok.1 h
          exact ⟨_, .quiet rfl⟩
      | some stop =>
          rw [hstop] at h
          dsimp only at h
          split at h
          · obtain ⟨rfl, rfl⟩ := pure_ok.1 h
            exact ⟨_, .quiet rfl⟩
          · next huser =>
              replace h := bind_get_ok.1 h
              split at h
              · obtain ⟨_, h₂, rfl⟩ := bind_pure_ok.1 h
                exact ⟨_, .quiet (emit_core h₂)⟩
              · obtain ⟨pages, _, h₂, h⟩ := bind_ok.1 h
                obtain ⟨rfl, rfl⟩ := checkedSub_ok h₂
                obtain ⟨extent, _, h₃, h⟩ := bind_ok.1 h
                obtain ⟨rfl, rfl⟩ := checkedMul_ok h₃
                split at h
                · obtain ⟨_, h₄, rfl⟩ := bind_pure_ok.1 h
                  exact ⟨_, .quiet (emit_core h₄)⟩
                · obtain ⟨last, _, h₄, h⟩ := bind_ok.1 h
                  obtain ⟨rfl, rfl⟩ := checkedAdd_ok h₄
                  replace h := bind_get_ok.1 h
                  split at h
                  · obtain ⟨_, h₆, rfl⟩ := bind_pure_ok.1 h
                    exact ⟨_, .quiet (emit_core h₆)⟩
                  · obtain ⟨hvalid, haligned⟩ := MapRequest.valid_of_checks hgood.1 hstop huser
                    exact MapRequest.serve_core (hvalid s writable file _ offset) haligned hs h

inductive Core.Unmaps (s : SpaceId) (start : PageNum) (c c' : Core) :
    Except Errno Unit → List Deed → Prop where
  | unmapped {pages : Nat} {drops : List Deed} (found : c.regions.find? ⟨s, start⟩ = some pages)
      (run : Steps c (.chart (c.regions.erase ⟨s, start⟩) :: drops) c')
      (drops_of : ∀ d ∈ drops, ∃ j < pages, d = .drop (PageRef.within s start j))
      (gone : ∀ j < pages, c'.pages.find? (PageRef.within s start j) = none) :
      Unmaps s start c c' (.ok ()) (.chart (c.regions.erase ⟨s, start⟩) :: drops)
  | refused {e : Errno} (run : c' = c) : Unmaps s start c c' (.error e) []

theorem Core.Unmaps.run {start : PageNum} {c c' : Core} {result : Except Errno Unit}
    {ds : List Deed} (h : Core.Unmaps s start c c' result ds) : Steps c ds c' := by
  cases h with
  | unmapped _ run => exact run
  | refused run => exact run ▸ .refl _

theorem unmap_core {result : Except Errno Unit} (hs : m.core.Sound)
    (h : unmap s va m = .ok result m') :
    ∃ ds, Core.Unmaps s va.vpnFloor m.core m'.core result ds := by
  unfold unmap at h
  split at h
  · replace h := bind_get_ok.1 h
    cases hregion : m.regions.find? ⟨s, va.vpnFloor⟩ with
    | none =>
        rw [hregion] at h
        obtain ⟨_, h₂, rfl⟩ := bind_pure_ok.1 h
        exact ⟨_, .refused (emit_core h₂)⟩
    | some pages =>
        rw [hregion] at h
        obtain ⟨_, m₁, h₂, h⟩ := bind_ok.1 h
        have hchart : Step m.core [.chart (m.core.regions.erase ⟨s, va.vpnFloor⟩)] m₁.core := by
          obtain rfl := modify_ok.1 h₂
          exact .chart _
        obtain ⟨stop, _, h₃, h⟩ := bind_ok.1 h
        obtain ⟨rfl, rfl⟩ := checkedAdd_ok h₃
        obtain ⟨_, m₂, h₄, h⟩ := bind_ok.1 h
        obtain ⟨drops, hsteps, hdrops, hgone⟩ := removeRegion_core (hchart.sound hs) h₄
        obtain ⟨_, h₅, rfl⟩ := bind_pure_ok.1 h
        rw [← emit_core h₅] at hsteps hgone
        exact ⟨_, .unmapped hregion (hchart.steps.trans hsteps) hdrops hgone⟩
  · obtain ⟨rfl, rfl⟩ := pure_ok.1 h
    exact ⟨_, .refused rfl⟩

theorem checkPages_core {length count : Nat} {write : Bool} {vpn : PageNum}
    {result : Except Errno Unit} (h : checkPages s va length write count vpn m = .ok result m') :
    m'.core = m.core := by
  induction count generalizing m vpn with
  | zero =>
      obtain ⟨rfl, rfl⟩ := pure_ok.1 h
      rfl
  | succ count ih =>
      obtain ⟨found, _, h₁, h⟩ := bind_ok.1 h
      obtain ⟨-, rfl⟩ := page?_core h₁
      cases found with
      | none =>
          obtain ⟨_, h₂, rfl⟩ := bind_pure_ok.1 h
          exact emit_core h₂
      | some page =>
          dsimp only at h
          split at h
          · obtain ⟨_, h₂, rfl⟩ := bind_pure_ok.1 h
            exact emit_core h₂
          · exact ih h

theorem checkUserRange_core {length : Nat} {write : Bool} {result : Except Errno Unit}
    (h : checkUserRange s va length write m = .ok result m') : m'.core = m.core := by
  unfold checkUserRange at h
  split at h
  · obtain ⟨rfl, rfl⟩ := pure_ok.1 h
    rfl
  · cases hstop : va.add? length with
    | none =>
        rw [hstop] at h
        obtain ⟨rfl, rfl⟩ := pure_ok.1 h
        rfl
    | some stop =>
        rw [hstop] at h
        dsimp only at h
        split at h
        · obtain ⟨rfl, rfl⟩ := pure_ok.1 h
          rfl
        · exact checkPages_core h

theorem duplicateBacking_core {id : FileId} {offset count : Nat} {a : Answer}
    (h : (Operation.duplicateBacking id offset count).perform m = .ok a m') : m'.core = m.core := by
  obtain ⟨backing, m₁, h₁, h⟩ := bind_ok.1 h
  obtain ⟨copy, m₂, h₂, h⟩ := bind_ok.1 h
  replace h := bind_get_ok.1 h
  obtain ⟨_, m₃, h₄, h⟩ := bind_ok.1 h
  obtain ⟨_, h₅, rfl⟩ := bind_pure_ok.1 h
  have hm₃ : m₃.core = m₂.core := by
    cases copy with
    | none =>
        obtain ⟨-, rfl⟩ := pure_ok.1 h₄
        rfl
    | some copy => exact FileBacking.close_core h₄
  rw [FileBacking.close_core h₅, hm₃, (FileBacking.duplicate_core h₂).1, (newBacking_core h₁).1]

namespace Operation

def Looks : Operation → Prop
  | newSpace | find _ _ | pageType _ _ | check _ _ _ _ | size _ | mappings _ | file _
  | duplicateBacking _ _ _ | stats => True
  | _ => False

/-- Requests to the pager, and accesses of users. What is left are changes that others make. -/
def Regular : Operation → Prop
  | setDirty _ _ _ | dropMapping _ _ | setInstalls _ _ | configureFile _ _ | locked _ _ _ => False
  | _ => True

/-- The deeds behind a request that was answered. -/
inductive Does (c c' : Core) : Operation → Answer → List Deed → Prop where
  | looked {op : Operation} {a : Answer} (looks : op.Looks) : Does c c' op a []
  | declared {s : SpaceId} {va : VirtAddr} {writable : Bool} {target : TargetRequest}
      {init : Option InitializerRequest} {t : PageTarget} {i : Option Initializer}
      (target_of : target.Names t) (init_of : InitializerRequest.NamesAll c' init i) :
      Does c c' (declare s va writable target init) (.flag true)
        [.add ⟨s, va.vpnFloor⟩ (.fresh s writable (.uninit t i))]
  | notDeclared {s : SpaceId} {va : VirtAddr} {writable : Bool} {target : TargetRequest}
      {init : Option InitializerRequest} :
      Does c c' (declare s va writable target init) (.flag false) []
  | inserted {s : SpaceId} {va : VirtAddr} {writable : Bool} {request : KindRequest}
      {kind : PageKind} (kind_of : request.Names c' kind) :
      Does c c' (insert s va writable request) (.flag true)
        [.add ⟨s, va.vpnFloor⟩ (.fresh s writable kind)]
  | notInserted {s : SpaceId} {va : VirtAddr} {writable : Bool} {request : KindRequest} :
      Does c c' (insert s va writable request) (.flag false) []
  | claimed {s : SpaceId} {va : VirtAddr} {done : Bool} {ds : List Deed}
      (settles : ∀ d ∈ ds, d.Settles ⟨s, va.vpnFloor⟩) : Does c c' (claim s va) (.flag done) ds
  | removed {s : SpaceId} {va : VirtAddr} :
      Does c c' (remove s va) (.flag true) [.drop ⟨s, va.vpnFloor⟩]
  | notRemoved {s : SpaceId} {va : VirtAddr} : Does c c' (remove s va) (.flag false) []
  | mapped {s : SpaceId} {va : VirtAddr} {length : Nat} {writable : Bool} {id : FileId}
      {offset : Nat} {result : Except Errno VirtAddr} {ds : List Deed}
      (serves : MapRequest.Serves ⟨s, va.vpnFloor, length, writable, id, (c.files id).data.size,
        offset⟩ va c c' result ds) :
      Does c c' (map s va length writable id offset) (.mapped result) ds
  | unmapped {s : SpaceId} {va : VirtAddr} {result : Except Errno Unit} {ds : List Deed}
      (unmaps : Core.Unmaps s va.vpnFloor c c' result ds) :
      Does c c' (unmap s va) (.accepted result) ds
  | faulted {s : SpaceId} {va sp : VirtAddr} {flags : FaultFlags} {done : Bool} {ds : List Deed}
      (faults : ∀ d ∈ ds, d.Faults ⟨s, va.vpnFloor⟩) :
      Does c c' (fault s va sp flags) (.flag done) ds
  | read {s : SpaceId} {va sp : VirtAddr} {length : Nat} {result : Option (Array UInt8)}
      {ds : List Deed} {shown : List UInt8} (reads : ∀ d ∈ ds, d.Reads s (va.Spans length))
      (loads : Deed.allLoads ds = ByteAt.along s va shown)
      (got : ∀ bytes, result = some bytes → bytes.toList = shown ∧ bytes.size = length) :
      Does c c' (read s va length sp) (.bytes result) ds
  | wrote {s : SpaceId} {va sp : VirtAddr} {bytes : Array UInt8} {done : Bool}
      {ds : List Deed} {taken : List UInt8} (writes : ∀ d ∈ ds, d.Writes s (va.Spans bytes.size))
      (stores : Deed.allStores ds = ByteAt.along s va taken) (some_of : taken <+: bytes.toList)
      (all_of : done = true → taken = bytes.toList) :
      Does c c' (write s va bytes sp) (.flag done) ds
  | forked {src dst : SpaceId} {order : Traversal} {vpns : List PageNum} {ds : List Deed}
      {c₁ : Core} {regions : Table PageRef Nat}
      (complete : ∀ vpn, c.pages.find? ⟨src, vpn⟩ ≠ none → vpn ∈ vpns)
      (copies : Core.CopiesAll src dst c vpns true ds c₁) (last : Step c₁ [.chart regions] c') :
      Does c c' (fork src dst order) (.flag true) (ds ++ [.chart regions])
  | notForked {src dst : SpaceId} {order : Traversal} {vpns : List PageNum} {ds : List Deed}
      (copies : Core.CopiesAll src dst c vpns false ds c') :
      Does c c' (fork src dst order) (.flag false) ds
  | tornDown {s : SpaceId} {order : Traversal} {n : Nat} {ds : List Deed}
      (clears : ∀ d ∈ ds, d.Clears c.regions s) (gone : ∀ vpn, c'.pages.find? ⟨s, vpn⟩ = none) :
      Does c c' (teardown s order) (.size n) ds
  | exited {s : SpaceId} {order : Traversal} {ds : List Deed}
      (clears : ∀ d ∈ ds, d.Clears c.regions s) (gone : ∀ vpn, c'.pages.find? ⟨s, vpn⟩ = none) :
      Does c c' (exit s order) (.flag true) ds

variable {a : Answer}

theorem declare_perform {writable : Bool} {target : TargetRequest}
    {init : Option InitializerRequest} (hs : m.core.Sound)
    (h : (declare s va writable target init).perform m = .ok a m') :
    ∃ ds, Steps m.core ds m'.core ∧
      Does m.core m'.core (declare s va writable target init) a ds := by
  obtain ⟨t, m₁, h₁, h⟩ := bind_ok.1 h
  obtain ⟨hm₁, htarget⟩ := TargetRequest.make_core h₁
  obtain ⟨i, m₂, h₂, h⟩ := bind_ok.1 h
  obtain ⟨hmade, hinit⟩ := makeInitializer_core (hm₁ ▸ hs) h₂
  rw [hm₁] at hmade
  obtain ⟨added, h₃, rfl⟩ := bind_pure_ok.1 h
  obtain ⟨ds, hsteps, hadds⟩ := declare_core h₃
  refine ⟨_, hmade.trans hsteps, ?_⟩
  cases hadds with
  | added => exact .declared htarget (hinit.later (hmade.sound hs) hsteps)
  | refused => exact .notDeclared

theorem insert_perform {writable : Bool} {request : KindRequest} (hs : m.core.Sound)
    (h : (insert s va writable request).perform m = .ok a m') :
    ∃ ds, Steps m.core ds m'.core ∧ Does m.core m'.core (insert s va writable request) a ds := by
  obtain ⟨kind, m₁, h₁, h⟩ := bind_ok.1 h
  obtain ⟨hmade, hkind⟩ := KindRequest.make_core hs h₁
  obtain ⟨added, h₂, rfl⟩ := bind_pure_ok.1 h
  obtain ⟨ds, hsteps, hadds⟩ := insert_core hkind.no_slot h₂
  refine ⟨_, hmade.trans hsteps, ?_⟩
  cases hadds with
  | added => exact .inserted (hkind.later (hmade.sound hs) hsteps)
  | refused => exact .notInserted

theorem claim_perform (hs : m.core.Sound) (h : (claim s va).perform m = .ok a m') :
    ∃ ds, Steps m.core ds m'.core ∧ Does m.core m'.core (claim s va) a ds := by
  obtain ⟨done, h₁, rfl⟩ := bind_pure_ok.1 h
  obtain ⟨found, m₂, h₂, h₁⟩ := bind_ok.1 h₁
  obtain ⟨hfound, -, -⟩ := find_core h₂
  cases found with
  | none =>
      obtain ⟨rfl, rfl⟩ := pure_ok.1 h₁
      exact ⟨_, hfound, .claimed nofun⟩
  | some page =>
      obtain ⟨ds, hsteps, hsettles⟩ := claim_core (hfound.sound hs) h₁
      exact ⟨_, hfound.trans hsteps, .claimed hsettles⟩

theorem fork_perform {src dst : SpaceId} {order : Traversal} (hs : m.core.Sound)
    (h : (fork src dst order).perform m = .ok a m') :
    ∃ ds, Steps m.core ds m'.core ∧ Does m.core m'.core (fork src dst order) a ds := by
  obtain ⟨done, h₁, rfl⟩ := bind_pure_ok.1 h
  obtain ⟨ds, c, hall, ⟨rfl, regions, hstep⟩ | ⟨rfl, rfl⟩⟩ := copySpace_core hs h₁
  · refine ⟨_, hall.steps.tail hstep, .forked (fun vpn hpage => ?_) hall hstep⟩
    exact (order.perm _).mem_iff.2 (Machine.mem_pageNumbers.2 hpage)
  · exact ⟨_, hall.steps, .notForked hall⟩

/-- Every request that is served is a run of steps, with deeds that fit the request. -/
theorem perform_core {op : Operation} (hop : op.Regular) (hs : m.core.Sound)
    (h : op.perform m = .ok a m') :
    ∃ ds, Steps m.core ds m'.core ∧ Does m.core m'.core op a ds := by
  have quiet (hl : op.Looks) (hm : m'.core = m.core) :
      ∃ ds, Steps m.core ds m'.core ∧ Does m.core m'.core op a ds :=
    ⟨[], hm ▸ .refl _, .looked hl⟩
  cases op with
  | newSpace =>
      obtain ⟨id, h₁, rfl⟩ := bind_pure_ok.1 h
      have hm : { m with spaceCount := m.spaceCount + 1 } = m' :=
        congrArg Prod.snd (modifyGet_ok.1 h₁)
      exact quiet trivial (hm ▸ rfl)
  | declare => exact declare_perform hs h
  | insert => exact insert_perform hs h
  | claim => exact claim_perform hs h
  | find s va =>
      obtain ⟨found, h₁, rfl⟩ := bind_pure_ok.1 h
      exact ⟨[], (find_core h₁).1, .looked trivial⟩
  | pageType s va =>
      obtain ⟨t, h₁, rfl⟩ := bind_pure_ok.1 h
      obtain ⟨found, _, h₂, h₁⟩ := bind_ok.1 h₁
      obtain ⟨-, rfl⟩ := page?_core h₂
      obtain ⟨rfl, rfl⟩ := pure_ok.1 h₁
      exact quiet trivial rfl
  | remove s va =>
      obtain ⟨removed, h₁, rfl⟩ := bind_pure_ok.1 h
      rcases removeRef_core h₁ with ⟨rfl, -, hm⟩ | ⟨rfl, -, hstep⟩
      · exact ⟨[], hm ▸ .refl _, .notRemoved⟩
      · exact ⟨_, hstep.steps, .removed⟩
  | map s va length writable id offset =>
      obtain ⟨_, m₁, h₁, h⟩ := bind_ok.1 h
      have hm₁ := openFile_core h₁
      obtain ⟨result, m₂, h₂, h⟩ := bind_ok.1 h
      obtain ⟨_, h₃, rfl⟩ := bind_pure_ok.1 h
      obtain ⟨ds, hserves⟩ := map_core (hm₁ ▸ hs) h₂
      rw [hm₁, ← closeFile_core h₃] at hserves
      exact ⟨ds, hserves.run, .mapped hserves⟩
  | unmap s va =>
      obtain ⟨result, h₁, rfl⟩ := bind_pure_ok.1 h
      obtain ⟨ds, hunmaps⟩ := unmap_core hs h₁
      exact ⟨ds, hunmaps.run, .unmapped hunmaps⟩
  | check s va length writing =>
      obtain ⟨result, h₁, rfl⟩ := bind_pure_ok.1 h
      exact quiet trivial (checkUserRange_core h₁)
  | fault s va sp flags =>
      obtain ⟨done, h₁, rfl⟩ := bind_pure_ok.1 h
      obtain ⟨ds, hsteps, hfaults⟩ := resolveFault_core hs h₁
      exact ⟨ds, hsteps, .faulted hfaults⟩
  | read s va length sp =>
      obtain ⟨result, h₁, rfl⟩ := bind_pure_ok.1 h
      obtain ⟨ds, shown, hsteps, hreads, hloads, hgot⟩ := userRead_core hs h₁
      exact ⟨ds, hsteps, .read hreads hloads hgot⟩
  | write s va bytes sp =>
      obtain ⟨done, h₁, rfl⟩ := bind_pure_ok.1 h
      obtain ⟨ds, taken, hsteps, hwrites, hstores, hsome, hall⟩ := userWrite_core hs h₁
      exact ⟨ds, hsteps, .wrote hwrites hstores hsome hall⟩
  | fork => exact fork_perform hs h
  | teardown s order =>
      obtain ⟨_, m₁, h₁, h⟩ := bind_ok.1 h
      replace h := bind_get_ok.1 h
      obtain ⟨rfl, rfl⟩ := pure_ok.1 h
      obtain ⟨ds, hsteps, hclears, hgone⟩ := teardown_core hs h₁
      exact ⟨ds, hsteps, .tornDown hclears hgone⟩
  | exit s order =>
      obtain ⟨_, h₁, rfl⟩ := bind_pure_ok.1 h
      obtain ⟨ds, hsteps, hclears, hgone⟩ := exitSpace_core hs h₁
      exact ⟨ds, hsteps, .exited hclears hgone⟩
  | size | mappings | file | stats =>
      replace h := bind_get_ok.1 h
      obtain ⟨rfl, rfl⟩ := pure_ok.1 h
      exact quiet trivial rfl
  | duplicateBacking => exact quiet trivial (duplicateBacking_core h)
  | setDirty | dropMapping | setInstalls | configureFile | locked => exact hop.elim

end Operation

end DemandPaging
