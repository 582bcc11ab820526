import DemandPaging.Proofs.FailedForks
import DemandPaging.Proofs.PrivateMemory

namespace DemandPaging

open DemandPaging.Core

variable {s src dst : SpaceId} {va : VirtAddr} {ref : PageRef} {t : PageType} {ds : List Deed}
  {op : Operation} {a : Answer}

namespace Cell

def pageType : Cell → PageType
  | pending _ | live _ => .anon
  | file => .file

end Cell

namespace Core

variable {c c' c₁ : Core}

def types (c : Core) (ref : PageRef) : Option PageType :=
  (c.pages.find? ref).map fun page => page.kind.pageType

theorem pageType_cell (c : Core) (page : Page) : (c.cell page).pageType = page.kind.pageType := by
  unfold cell
  split <;> next hk => rw [hk]; rfl

theorem types_eq (c : Core) (ref : PageRef) : c.types ref = (c.flat ref).map Cell.pageType := by
  unfold types flat
  rw [Option.map_map]
  exact congrArg (Option.map · _) (funext fun page => (c.pageType_cell page).symm)

theorem types_eq_none : c.types ref = none ↔ c.pages.find? ref = none := Option.map_eq_none_iff

theorem types_eq_some : c.types ref = some t ↔
    ∃ page, c.pages.find? ref = some page ∧ page.kind.pageType = t := Option.map_eq_some_iff

theorem types_of_flat {F : Flat} (h : c'.flat = F) : c'.types ref = (F ref).map Cell.pageType := by
  rw [types_eq, h]

theorem Steps.types_kept (h : Steps c ds c') (stays : .drop ref ∉ ds) (found : c.types ref = some t) :
    c'.types ref = some t := by
  obtain ⟨page, hpage, htype⟩ := types_eq_some.1 found
  obtain ⟨page', hpage', same⟩ := h.remains hpage stays
  exact types_eq_some.2 ⟨page', hpage', same.pageType.trans htype⟩

theorem Steps.types_same (h : Steps c [] c') (hs : c.Sound) : c'.types = c.types := by
  funext ref
  rw [types_eq, types_eq, h.flat hs nofun]
  rfl

end Core

namespace MapRequest

variable {r : MapRequest} {n i j : Nat} {F : Flat} {x : PageRef}

theorem flat_adds_kept (h : F x = some .file) : Deed.applyAll F (r.adds n i) x = some .file := by
  induction n generalizing F i with
  | zero => exact h
  | succ n ih =>
      refine ih (F := Deed.apply F (.add (r.ref i) (r.page i))) ?_
      by_cases hx : x = r.ref i
      · exact hx ▸ Function.update_self _ _ _
      · exact (Function.update_of_ne hx _ _).trans h

theorem flat_adds (hi : i ≤ j) (hj : j < i + n) :
    Deed.applyAll F (r.adds n i) (r.ref j) = some .file := by
  induction n generalizing F i with
  | zero => omega
  | succ n ih =>
      rcases Nat.eq_or_lt_of_le hi with rfl | hi
      · exact flat_adds_kept (F := Deed.apply F _) (Function.update_self _ _ _)
      · exact ih (F := Deed.apply F _) hi (by omega)

theorem flat_adds_apart (apart : ∀ j, i ≤ j → j < i + n → x ≠ r.ref j) :
    Deed.applyAll F (r.adds n i) x = F x := by
  refine Deed.applyAll_apart fun d hd target => ?_
  obtain ⟨j, hi, hj, rfl⟩ := mem_adds.1 hd
  exact apart j hi hj (Option.some.inj target).symm

end MapRequest

def PageRef.Among (s : SpaceId) (start : PageNum) (count : Nat) (ref : PageRef) : Prop :=
  ref.space = s ∧ start.val ≤ ref.vpn.val ∧ ref.vpn.val < start.val + count

theorem PageRef.among_iff {start : PageNum} {count : Nat} :
    ref.Among s start count ↔ ∃ j < count, ref = ⟨s, ⟨start.val + j⟩⟩ := by
  obtain ⟨s', ⟨v⟩⟩ := ref
  simp only [Among, PageRef.mk.injEq, PageNum.mk.injEq]
  constructor
  · rintro ⟨rfl, hle, hlt⟩
    exact ⟨v - start.val, by omega, rfl, by omega⟩
  · rintro ⟨j, hj, rfl, rfl⟩
    exact ⟨rfl, Nat.le_add_right _ _, by omega⟩

namespace Core

variable {c c' : Core} {vpns : List PageNum} {done : Bool}

theorem CopiesAll.vacant (h : CopiesAll src dst c vpns done ds c') (hdone : done = true) {vpn : PageNum}
    (hv : vpn ∈ vpns) (found : c.types ⟨src, vpn⟩ = some t) : c.types ⟨dst, vpn⟩ = none := by
  induction h with
  | nil => exact nomatch hv
  | @next c c₁ _ v vpns _ ds es first copies _ _ ih =>
      have kept {r : PageRef} {t : PageType} (hr : c.types r = some t) : c₁.types r = some t :=
        first.types_kept (fun hd => (copies.deeds _ hd).idle.2 rfl) hr
      rcases List.mem_cons.1 hv with rfl | hv
      · cases copies with
        | absent absent => exact nomatch (types_eq_none.2 absent).symm.trans found
        | unused _ _ vacant => exact types_eq_none.2 vacant
        | shared _ _ vacant => exact types_eq_none.2 vacant
      · have later := ih hdone hv (kept found)
        cases early : c.types ⟨dst, vpn⟩ with
        | none => rfl
        | some t' => exact nomatch later.symm.trans (kept early)
  | stop => exact nomatch hdone

end Core

namespace Operation

/-- The answers by which pages of mapped files, or copies of pages, may have come to a space. -/
def Yields : Operation → Answer → Prop
  | map _ _ _ _ _ _, .mapped (.ok _) | fork _ _ _, .flag _ => True
  | _, _ => False

theorem Yields.charts (h : op.Yields a) : op.Charts := by
  cases op with
  | map | fork => trivial
  | _ => exact h.elim

def Empties (s : SpaceId) : Operation → Answer → Prop
  | teardown s' _, .size _ | exit s' _, .flag _ => s' = s
  | _, _ => False

theorem Empties.charts (h : op.Empties s a) : op.Charts := by
  cases op with
  | teardown | exit => trivial
  | _ => exact h.elim

theorem Empties.barren (h : op.Empties s a) : ¬ op.Yields a := by
  intro yields
  cases op with
  | map | fork => exact h
  | _ => exact yields

/-- Answers that leave it at the pages that were there, perhaps without the one that was to be removed. -/
def Plain (op : Operation) (a : Answer) : Prop :=
  ¬ op.Yields a ∧ ∀ s, ¬ op.Empties s a

theorem plain_absent : op.Plain .absent := by
  constructor
  · intro h
    cases op <;> exact h
  · intro s h
    cases op <;> exact h

theorem plain_of_not_charts (h : ¬ op.Charts) : op.Plain a :=
  ⟨fun yields => h yields.charts, fun _ empties => h empties.charts⟩

end Operation

/-- What becomes of the recorded regions and of the types of pages when a request is answered. -/
inductive Machine.Recharts (m m' : Machine) : Operation → Answer → Prop where
  | kept {op : Operation} {a : Answer} (plain : op.Plain a) (regions : m'.regions = m.regions)
      (types : ∀ ref t, (∀ s va, op = .remove s va → ref ≠ ⟨s, va.vpnFloor⟩) →
        m.core.types ref = some t → m'.core.types ref = some t) : Recharts m m' op a
  | mapped {s : SpaceId} {va va' : VirtAddr} {length pages : Nat} {writable : Bool} {file : FileId}
      {offset : Nat} (count : (length + (pageSize - 1)) / pageSize = pages) (positive : 0 < pages)
      (regions : m'.regions = m.regions.insert ⟨s, va.vpnFloor⟩ pages)
      (vacant : ∀ ref, ref.Among s va.vpnFloor pages → m.core.types ref = none)
      (made : ∀ ref, ref.Among s va.vpnFloor pages → m'.core.types ref = some .file)
      (others : ∀ ref, ¬ ref.Among s va.vpnFloor pages → m'.core.types ref = m.core.types ref) :
      Recharts m m' (.map s va length writable file offset) (.mapped (.ok va'))
  | unmapped {s : SpaceId} {va : VirtAddr} {pages : Nat}
      (found : m.regions.find? ⟨s, va.vpnFloor⟩ = some pages)
      (regions : m'.regions = m.regions.erase ⟨s, va.vpnFloor⟩)
      (gone : ∀ ref, ref.Among s va.vpnFloor pages → m'.core.types ref = none)
      (others : ∀ ref, ¬ ref.Among s va.vpnFloor pages → m'.core.types ref = m.core.types ref) :
      Recharts m m' (.unmap s va) (.accepted (.ok ()))
  | copied {src dst : SpaceId} {order : Traversal} (regions : m'.regions = m.regions.copied src dst)
      (vacant : ∀ vpn t, m.core.types ⟨src, vpn⟩ = some t → m.core.types ⟨dst, vpn⟩ = none)
      (types : ∀ ref, m'.core.types ref = if ref.space = dst then
        (m.core.types ⟨src, ref.vpn⟩).or (m.core.types ref) else m.core.types ref) :
      Recharts m m' (.fork src dst order) (.flag true)
  | copiedInPart {src dst : SpaceId} {order : Traversal} (regions : m'.regions = m.regions)
      (types : ∀ ref t, m.core.types ref = some t → m'.core.types ref = some t)
      (others : ∀ ref, ref.space ≠ dst → m'.core.types ref = m.core.types ref) :
      Recharts m m' (.fork src dst order) (.flag false)
  | emptied {op : Operation} {a : Answer} {s : SpaceId} (empties : op.Empties s a)
      (regions : ∀ ref, ref.space = s ∧ m'.regions.find? ref = none ∨
        m'.regions.find? ref = m.regions.find? ref ∧
          (ref.space = s → ∀ vpn, m.core.types ⟨s, vpn⟩ = none))
      (gone : ∀ vpn, m'.core.types ⟨s, vpn⟩ = none)
      (others : ∀ ref, ref.space ≠ s → m'.core.types ref = m.core.types ref) : Recharts m m' op a

namespace Operation

variable {m m' : Machine} {c₁ : Core}

theorem Comes.kept (comes : Comes m.core m'.core op a) (plain : ¬ op.Charts) :
    m.Recharts m' op a := by
  refine .kept (plain_of_not_charts plain) (comes.regions plain) fun ref t stays found => ?_
  cases comes with
  | absent _ run => exact run.types_kept List.not_mem_nil found
  | ran first run does =>
      refine run.types_kept (fun hd => ?_) (first.types_kept List.not_mem_nil found)
      obtain ⟨s, va, rfl, rfl⟩ := does.dropped plain hd
      exact stays s va rfl rfl
  | tampered _ first core =>
      rw [core]
      exact first.types_kept List.not_mem_nil found

theorem map_recharts {length : Nat} {writable : Bool} {file : FileId} {offset : Nat}
    {result : Except Errno VirtAddr} (hs : c₁.Sound) (same : c₁.types = m.core.types)
    (serves : MapRequest.Serves ⟨s, va.vpnFloor, length, writable, file,
      (c₁.files file).data.size, offset⟩ va c₁ m'.core result ds)
    (regions : m'.regions = (map s va length writable file offset).regionsAfter m (.mapped result)) :
    m.Recharts m' (map s va length writable file offset) (.mapped result) := by
  have quiet {r : MapRequest} {n i : Nat} {d : Deed} (hd : d ∈ r.adds n i) : ¬ d.IsWrite := by
    obtain ⟨j, -, -, rfl⟩ := MapRequest.mem_adds.1 hd
    exact id
  cases serves with
  | @mapped pages valid aligned vacant run =>
      have hflat := run.flat hs fun ⟨d, hd, hw⟩ => by
        rcases List.mem_append.1 hd with hd | hd
        · exact (quiet hd hw).elim
        · rw [List.mem_singleton.1 hd] at hw
          exact hw.elim
      rw [Deed.applyAll_append] at hflat
      have refs {j : Nat} (hj : j < pages) := valid.ref_eq hj
      have count : pages = (length + (pageSize - 1)) / pageSize := valid.count
      have positive : 0 < pages := by
        have hlength : 0 < length := valid.positive
        rw [count, pageSize]
        omega
      refine .mapped count.symm positive (count ▸ regions) (fun ref hamong => ?_) (fun ref hamong => ?_)
        fun ref hamong => ?_
      · obtain ⟨j, hj, rfl⟩ := PageRef.among_iff.1 hamong
        rw [← same, types_eq_none, ← refs hj]
        exact vacant j hj
      · obtain ⟨j, hj, rfl⟩ := PageRef.among_iff.1 hamong
        rw [types_of_flat hflat, ← refs hj]
        exact congrArg (Option.map _) (MapRequest.flat_adds (Nat.zero_le j) (by omega))
      · rw [types_of_flat hflat, ← same, types_eq]
        refine congrArg (Option.map _) (MapRequest.flat_adds_apart fun j _ hj he => hamong ?_)
        have hlt : j < pages := by omega
        exact PageRef.among_iff.2 ⟨j, hlt, he.trans (refs hlt)⟩
  | refused vacant run undone gone =>
      have hflat := run.flat hs fun ⟨d, hd, hw⟩ => by
        rcases List.mem_append.1 hd with hd | hd
        · exact (quiet hd hw).elim
        · obtain ⟨j, -, rfl⟩ := undone d hd
          exact hw.elim
      rw [Does.unchanged vacant hflat undone gone] at hflat
      refine .kept ⟨id, fun _ => id⟩ regions fun ref t _ found => ?_
      rw [types_of_flat hflat, ← types_eq, same]
      exact found

theorem unmap_recharts {result : Except Errno Unit} (hs : c₁.Sound) (same : c₁.types = m.core.types)
    (charted : c₁.regions = m.regions) (regional : m.Regional)
    (unmaps : Core.Unmaps s va.vpnFloor c₁ m'.core result ds)
    (regions : m'.regions = (unmap s va).regionsAfter m (.accepted result)) :
    m.Recharts m' (unmap s va) (.accepted result) := by
  cases unmaps with
  | @unmapped pages drops found run drops_of gone =>
      rw [charted] at found
      have refs {j : Nat} (hj : j < pages) :
          PageRef.within s va.vpnFloor j = ⟨s, ⟨va.vpnFloor.val + j⟩⟩ := by
        obtain ⟨-, hend⟩ := regional _ _ found
        refine PageRef.within_eq ?_
        simp only [pageSize, userSpaceEnd, wordBound] at *
        omega
      have hflat := run.flat hs fun writes => by
        obtain ⟨d, hd, hw⟩ := writes
        rcases List.mem_cons.1 hd with rfl | hd
        · exact hw.elim
        · obtain ⟨j, -, rfl⟩ := drops_of d hd
          exact hw.elim
      refine .unmapped found regions (fun ref hamong => ?_) fun ref hamong => ?_
      · obtain ⟨j, hj, rfl⟩ := PageRef.among_iff.1 hamong
        rw [types_eq_none, ← refs hj]
        exact gone j hj
      · rw [types_of_flat hflat, ← same, types_eq]
        refine congrArg (Option.map _) (Deed.applyAll_apart fun d hd target => hamong ?_)
        rcases List.mem_cons.1 hd with rfl | hd
        · cases target
        · obtain ⟨j, hj, rfl⟩ := drops_of d hd
          exact PageRef.among_iff.2 ⟨j, hj, (Option.some.inj target).symm.trans (refs hj)⟩
  | refused run =>
      refine .kept ⟨id, fun _ => id⟩ regions fun ref t _ found => ?_
      rw [run, same]
      exact found

theorem fork_recharts {order : Traversal} {vpns : List PageNum} {c₂ : Core} {table : Table PageRef Nat}
    (hs : c₁.Sound) (same : c₁.types = m.core.types) (apart : src ≠ dst)
    (complete : ∀ vpn, c₁.pages.find? ⟨src, vpn⟩ ≠ none → vpn ∈ vpns)
    (copies : Core.CopiesAll src dst c₁ vpns true ds c₂) (last : Step c₂ [.chart table] m'.core)
    (regions : m'.regions = (fork src dst order).regionsAfter m (.flag true)) :
    m.Recharts m' (fork src dst order) (.flag true) := by
  have hflat := (copies.steps.tail last).flat hs fun ⟨d, hd, hw⟩ => by
    rcases List.mem_append.1 hd with hd | hd
    · have hcopies := copies.deeds d hd
      cases d with
      | write => exact hcopies.elim
      | _ => exact hw.elim
    · rw [List.mem_singleton.1 hd] at hw
      exact hw.elim
  rw [Deed.applyAll_append] at hflat
  have visited {vpn : PageNum} {t : PageType} (found : c₁.types ⟨src, vpn⟩ = some t) : vpn ∈ vpns :=
    complete vpn fun absent => nomatch (types_eq_none.2 absent).symm.trans found
  refine .copied regions (fun vpn t found => ?_) fun ref => ?_
  · rw [← same] at found ⊢
    exact copies.vacant rfl (visited found) found
  · have hcopied := copies.flat apart hs rfl ref
    rw [types_of_flat hflat, ← same, types_eq, types_eq]
    refine (congrArg (Option.map _) hcopied).trans ?_
    by_cases hspace : ref.space = dst
    · rw [if_pos hspace]
      by_cases hvisited : ref.vpn ∈ vpns
      · rw [if_pos ⟨hspace, hvisited⟩, Option.map_or]
      · -- a page number that was not visited is not one of a page
        cases hsrc : c₁.types ⟨src, ref.vpn⟩ with
        | none =>
            rw [types_eq] at hsrc
            rw [if_neg fun h => hvisited h.2, hsrc, Option.none_or]
        | some t => exact (hvisited (visited hsrc)).elim
    · rw [if_neg hspace, if_neg fun h => hspace h.1]

theorem failed_fork_recharts {order : Traversal} {vpns : List PageNum} (hs : c₁.Sound)
    (same : c₁.types = m.core.types) (copies : Core.CopiesAll src dst c₁ vpns false ds m'.core)
    (regions : m'.regions = (fork src dst order).regionsAfter m (.flag false)) :
    m.Recharts m' (fork src dst order) (.flag false) := by
  refine .copiedInPart regions (fun ref t found => ?_) fun ref apart => ?_
  · rw [← same] at found
    exact copies.steps.types_kept (fun hd => (copies.deeds _ hd).idle.2 rfl) found
  · rw [← same, types_eq, types_eq,
      copies.steps.flat_beside hs (fun d hd => (copies.deeds d hd).confined) apart]

theorem empty_recharts (hs : c₁.Sound) (same : c₁.types = m.core.types) (run : Steps c₁ ds m'.core)
    {table : Table PageRef Nat} (clears : ∀ d ∈ ds, d.Clears table s) (empties : op.Empties s a)
    (gone : ∀ vpn, m'.core.pages.find? ⟨s, vpn⟩ = none)
    (regions : m'.regions = if m.pageNumbers s = [] then m.regions
      else m.regions.filterKeys fun ref => ref.space != s) : m.Recharts m' op a := by
  have hflat := run.flat hs fun ⟨d, hd, hw⟩ => by
    rcases clears d hd with ⟨vpn, rfl⟩ | rfl <;> exact hw.elim
  refine .emptied empties (fun ref => ?_) (fun vpn => types_eq_none.2 (gone vpn)) fun ref apart => ?_
  · rw [regions]
    split
    · next hempty =>
        refine .inr ⟨rfl, fun _ vpn => types_eq_none.2 ?_⟩
        exact Machine.pageNumbers_eq_nil.1 hempty vpn
    · rw [find?_keepOthers]
      by_cases hspace : ref.space = s
      · exact .inl ⟨hspace, if_pos hspace⟩
      · exact .inr ⟨if_neg hspace, fun he => (hspace he).elim⟩
  · rw [types_of_flat hflat, ← same, types_eq,
      Deed.applyAll_apart fun d hd => (clears d hd).drops.apart apart]

theorem perform_recharts (hs : m.core.Sound) (regional : m.Regional)
    (apart : ∀ src dst order, op.bare = fork src dst order → src ≠ dst)
    (h : op.perform m = .ok a m') : m.Recharts m' op.bare a := by
  have comes := perform_comes hs h
  have regions := perform_regions hs h
  generalize op.bare = op at comes regions apart
  by_cases charts : op.Charts
  · cases comes with
    | absent absent run =>
        subst absent
        rw [regionsAfter_absent] at regions
        exact .kept plain_absent regions fun ref t _ => run.types_kept List.not_mem_nil
    | @ran c₁ ds first run does =>
        have hs₁ := first.sound hs
        have same := first.types_same hs
        cases does with
        | mapped serves => exact map_recharts hs₁ same serves regions
        | unmapped unmaps =>
            exact unmap_recharts hs₁ same (first.regions nofun) regional unmaps regions
        | forked complete copies last =>
            exact fork_recharts hs₁ same (apart _ _ _ rfl) complete copies last regions
        | notForked copies => exact failed_fork_recharts hs₁ same copies regions
        | tornDown clears gone => exact empty_recharts hs₁ same run clears rfl gone regions
        | exited clears gone => exact empty_recharts hs₁ same run clears rfl gone regions
        | looked looks => cases op <;> first | exact looks.elim | exact charts.elim
        | _ => exact charts.elim
    | tampered irregular => cases op <;> first | exact charts.elim | exact (irregular trivial).elim
  · exact comes.kept charts

end Operation

end DemandPaging
