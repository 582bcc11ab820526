import DemandPaging.Proofs.Copying
import DemandPaging.Proofs.Snapshots
import DemandPaging.Proofs.Renewal

/-!
What a successful copy of a space is like, whatever had to be pushed out of memory on the way: every
page has its copy, and a page that was used is in one frame with its copy, brought back if need be.
-/

namespace DemandPaging

open DemandPaging.Core

variable {m m' m₁ : Machine} {src dst : SpaceId} {vpn : PageNum} {vpns : List PageNum}
  {order : Traversal} {done : Bool} {ref r a b : PageRef} {page page' copy : Page} {n : Nat}
  {loan : HandleCount}

/-- A page as it was and as it is now, and its copy. Unused pages have no frame; used ones are in one
frame, with those who shared it already and nobody else. -/
structure Core.Doubles (c c' : Core) (src dst : SpaceId) (vpn : PageNum) (page page' copy : Page) :
    Prop where
  found : c'.pages.find? ⟨src, vpn⟩ = some page'
  copied : c'.pages.find? ⟨dst, vpn⟩ = some copy
  same : page.Remains True page'
  matched : copy.writable = page'.writable ∧ copy.kind.pageType = page'.kind.pageType ∧
    copy.kind.isUninit = page'.kind.isUninit
  unused : page.kind.isUninit = true →
    page'.frame = none ∧ copy.frame = none ∧ page'.kind = page.kind ∧ copy.kind = page.kind
  shared : page.kind.isUninit = false → ∃ id frame, page'.frame = some id ∧ copy.frame = some id ∧
    c'.frames.find? id = some frame ∧ frame.owners.Nodup ∧
      (∀ r, r ∈ frame.owners ↔ r = ⟨src, vpn⟩ ∨ r = ⟨dst, vpn⟩ ∨
        r.space ≠ src ∧ r.space ≠ dst ∧ c.Together ⟨src, vpn⟩ r) ∧
      page'.cow = true ∧ copy.cow = true ∧
      ∀ r, r = ⟨src, vpn⟩ ∨ r = ⟨dst, vpn⟩ →
        ∃ dirty, c'.mappings.find? r = some ⟨frame.page, false, dirty⟩
  no_slot : ∀ slot, page'.kind ≠ .anon (some slot) ∧ copy.kind ≠ .anon (some slot)

theorem Core.Steps.handles_beside {c c' : Core} {ds : List Deed} (h : Steps c ds c') (hs : c.Sound)
    (confined : ∀ d ∈ ds, d.Confined dst) (apart : ref.space ≠ dst) :
    (c'.pages.find? ref).map (fun page => page.kind.handles) =
      (c.pages.find? ref).map fun page => page.kind.handles := by
  cases found : c.pages.find? ref with
  | none => rw [h.vacant_beside hs confined apart found]
  | some page =>
      obtain ⟨page', found', same⟩ := h.remains_beside confined apart found
      rw [found', Option.map_some, Option.map_some, same.handles trivial]

theorem copySpace_lends (h : m.Tidy n loan) (empty : ∀ vpn, m.pages.find? ⟨dst, vpn⟩ = none)
    (copied : copySpace src dst order m = .ok done m') :
    m'.handles = m.handles + m'.lentTo dst := by
  have tidy' := (copySpace_upholds src dst order h).ok copied
  obtain ⟨m₁, copies, regions, rfl⟩ := copySpace_copies h.sound copied
  obtain ⟨ds, run, hds⟩ := copies.steps
  have lent := @Machine.lent_of_others m { m₁ with regions } dst
    fun ref apart => run.handles_beside h.sound (fun d hd => (hds d hd).confined) apart
  rw [Machine.lentTo_empty empty, add_zero] at lent
  rw [tidy'.handles, h.handles, lent, add_assoc]

theorem Core.CopiesPages.sharers {c c' : Core} (h : CopiesPages src dst c vpns true c')
    (hs : c'.Sound) (level : c'.Level) (apart : src ≠ dst) (twins : c'.Twinned ⟨src, vpn⟩ ⟨dst, vpn⟩) :
    (r = ⟨src, vpn⟩ ∨ c'.Together ⟨src, vpn⟩ r) ↔ r = ⟨src, vpn⟩ ∨ r = ⟨dst, vpn⟩ ∨
      r.space ≠ src ∧ r.space ≠ dst ∧ c.Together ⟨src, vpn⟩ r := by
  have hne : (⟨src, vpn⟩ : PageRef) ≠ ⟨dst, vpn⟩ := fun he => apart (PageRef.mk.inj he).1
  refine or_congr_right ⟨fun together => ?_, ?_⟩
  · obtain ⟨hvpn, hspace⟩ := level.together together
    by_cases hdst : r.space = dst
    · left
      cases r
      cases hdst
      cases hvpn
      rfl
    · exact .inr ⟨Ne.symm hspace, hdst, (h.together apart hdst).1 together⟩
  · rintro (rfl | ⟨-, hdst, together⟩)
    · exact twins.together hs hne
    · exact (h.together apart hdst).2 together

theorem copySpace_doubles (h : m.Tidy n loan) (level : m.core.Level) (apart : src ≠ dst)
    (copied : copySpace src dst order m = .ok true m')
    (found : m.pages.find? ⟨src, vpn⟩ = some page) :
    ∃ page' copy, m.core.Doubles m'.core src dst vpn page page' copy := by
  have hs := h.sound
  have hs' := ((copySpace_upholds src dst order h).ok copied).sound
  have answered : (Operation.fork src dst order).perform m = .ok (.flag true) m' :=
    bind_ok.2 ⟨true, m', copied, rfl⟩
  have level' := Operation.perform_level hs level answered
  obtain ⟨m₁, copies, regions, rfl⟩ := copySpace_copies hs copied
  obtain ⟨ds, run, hds⟩ := copies.steps
  have hs₁ := run.sound hs
  have hv : vpn ∈ order.visit (m.pageNumbers src) := by
    refine (order.perm _).mem_iff.2 (Machine.mem_pageNumbers.2 fun absent => ?_)
    exact nomatch absent.symm.trans found
  obtain ⟨page', found', same⟩ := run.remains_idle hds found
  obtain ⟨⟨copy, hcopy, matched⟩, twins⟩ := copies.copied hs apart hv found
  have uninit := same.isUninit trivial
  refine ⟨page', copy, found', hcopy, same, ⟨?_, ?_, ?_⟩, fun unused => ?_, fun used => ?_,
    fun slot => ?_⟩
  · rw [matched.writable, same.writable]
  · rw [matched.pageType, same.pageType]
  · rw [matched.isUninit, uninit]
  · have kind : copy.kind = page.kind := by
      rw [← PageKind.twin_unused (matched.isUninit.trans unused), matched.kind,
        PageKind.twin_unused unused]
    exact ⟨hs₁.owned.unused _ _ found' (uninit.trans unused),
      hs₁.owned.unused _ _ hcopy (matched.isUninit.trans unused), same.unused trivial unused, kind⟩
  · have htwins := twins used
    obtain ⟨id, frame, resident, resident', owned, entries⟩ := htwins.resident found' hcopy
    have hne : (⟨src, vpn⟩ : PageRef) ≠ ⟨dst, vpn⟩ := fun he => apart (PageRef.mk.inj he).1
    have many := many_of_mem hne (hs₁.owner found' resident owned) (hs₁.owner hcopy resident' owned)
    refine ⟨id, frame, resident, resident', owned, hs₁.owned.nodup id frame owned, fun r => ?_,
      hs₁.cow_of_many found' resident owned many, hs₁.cow_of_many hcopy resident' owned many, entries⟩
    rw [hs₁.owner_iff found' resident owned]
    exact copies.sharers hs₁ level' apart htwins
  · cases use : page.kind.isUninit with
    | true =>
        have no_slot {p : Page} (hp : p.kind.isUninit = true) : p.kind ≠ .anon (some slot) := by
          intro hk
          rw [hk] at hp
          exact nomatch hp
        exact ⟨no_slot (uninit.trans use), no_slot (matched.isUninit.trans use)⟩
    | false =>
        obtain ⟨id, frame, resident, resident', -⟩ := (twins use).resident found' hcopy
        exact ⟨hs₁.no_slot found' resident slot, hs₁.no_slot hcopy resident' slot⟩

theorem copySpace_addresses (hs : m.core.Sound) (apart : src ≠ dst)
    (empty : ∀ vpn, m.pages.find? ⟨dst, vpn⟩ = none) (copied : copySpace src dst order m = .ok true m')
    (vpn : PageNum) :
    (m'.pages.find? ⟨src, vpn⟩ = none ↔ m.pages.find? ⟨src, vpn⟩ = none) ∧
      (m'.pages.find? ⟨dst, vpn⟩ = none ↔ m.pages.find? ⟨src, vpn⟩ = none) := by
  obtain ⟨m₁, copies, regions, rfl⟩ := copySpace_copies hs copied
  obtain ⟨ds, run, hds⟩ := copies.steps
  cases found : m.pages.find? ⟨src, vpn⟩ with
  | none =>
      have absent := run.vacant_beside hs (fun d hd => (hds d hd).confined) apart found
      have vacant := copies.vacant hs apart found (empty vpn)
      exact ⟨iff_of_true absent rfl, iff_of_true vacant rfl⟩
  | some page =>
      have hv : vpn ∈ order.visit (m.pageNumbers src) := by
        refine (order.perm _).mem_iff.2 (Machine.mem_pageNumbers.2 fun absent => ?_)
        exact nomatch absent.symm.trans found
      obtain ⟨page', found', -⟩ := run.remains_idle hds found
      obtain ⟨⟨copy, hcopy, -⟩, -⟩ := copies.copied hs apart hv found
      constructor
      · exact iff_of_false (fun absent => nomatch absent.symm.trans found') nofun
      · exact iff_of_false (fun absent => nomatch absent.symm.trans hcopy) nofun

/-- A space that was copied without a failure to a space with no page and no region has the same page
addresses and regions as its copy. Every page has its copy, whatever order the pages are taken in and
whatever is pushed out of memory meanwhile, and the handles that were opened are those that the copies
hold. -/
theorem copy_reproduces_space {frames : Nat} {sectors : Option Nat} {files : List File}
    {allocator : Allocator}
    {held : List PageRef} (reached : (Machine.fresh frames sectors files allocator).Reaches m)
    (apart : src ≠ dst) (no_page : m.pageNumbers dst = []) (no_region : m.regionsOf dst = [])
    (copied : (Operation.fork src dst order).perform { m with held } = .ok (.flag true) m') :
    (∀ vpn, (m'.pages.find? ⟨src, vpn⟩ = none ↔ m.pages.find? ⟨src, vpn⟩ = none) ∧
        (m'.pages.find? ⟨dst, vpn⟩ = none ↔ m.pages.find? ⟨src, vpn⟩ = none)) ∧
      (∀ vpn, m'.regions.find? ⟨src, vpn⟩ = m.regions.find? ⟨src, vpn⟩ ∧
        m'.regions.find? ⟨dst, vpn⟩ = m.regions.find? ⟨src, vpn⟩) ∧
      (∀ vpn page, m.pages.find? ⟨src, vpn⟩ = some page →
        ∃ page' copy, m.core.Doubles m'.core src dst vpn page page' copy) ∧
      m'.handles = m.handles + m'.lentTo dst := by
  have fresh := Machine.fresh_tidy frames sectors files allocator
  have tidy : Machine.Tidy _ _ { m with held } := (reached.tidy fresh).same rfl rfl
  have level := reached.level fresh (Machine.fresh_level _ _ _ _)
  have empty := Machine.pageNumbers_eq_nil.1 no_page
  obtain ⟨_, _, run, h⟩ := bind_ok.1 copied
  obtain ⟨hflag, rfl⟩ := pure_ok.1 h
  cases hflag
  refine ⟨copySpace_addresses (m := { m with held }) tidy.sound apart empty run, fun vpn => ?_,
    fun vpn page found => ?_, copySpace_lends (m := { m with held }) tidy empty run⟩
  · have regions := copySpace_regions (m := { m with held }) tidy.sound run
    rw [if_pos rfl] at regions
    rw [regions, Table.find?_copied, Table.find?_copied, if_neg apart, if_pos rfl,
      Machine.regionsOf_eq_nil.1 no_region vpn, Option.or_none]
    exact ⟨rfl, rfl⟩
  · exact copySpace_doubles (m := { m with held }) tidy level apart run found

/-- A space with an anonymous page in the swap area, an unused one and a mapped file is copied while
another space has all of memory. The page comes back and shares its frame with its copy alone. -/
theorem copy_reproduces_space_after_swap : ∃ m m',
    (Machine.fresh 2 (some 16) [.ofData #[46] false]).Reaches m ∧
    (Operation.fork 0 2 .asStored).perform { m with held := [] } = .ok (.flag true) m' ∧
    (∃ page slot, m.pages.find? ⟨0, ⟨1⟩⟩ = some page ∧ page.kind = .anon (some slot) ∧
      ∃ page' copy id frame, m.core.Doubles m'.core 0 2 ⟨1⟩ page page' copy ∧ page'.frame = some id ∧
        copy.frame = some id ∧ m'.frames.find? id = some frame ∧
          ∀ r, r ∈ frame.owners ↔ r = ⟨0, ⟨1⟩⟩ ∨ r = ⟨2, ⟨1⟩⟩) ∧
    m'.regions.find? ⟨2, ⟨65536⟩⟩ = some 1 := by
  have played : ((Machine.fresh 2 (some 16) [.ofData #[46] false]).serve [
      .declare 0 (.ofBits 4096) true .anon none, .write 0 (.ofBits 4096) #[7] (.ofBits 0),
      .declare 0 (.ofBits 8192) true .anon none, .map 0 (.ofBits 0x10000000) 1 true 0 0, .newSpace,
      .declare 1 (.ofBits 4096) true .anon none, .write 1 (.ofBits 4096) #[8] (.ofBits 0),
      .declare 1 (.ofBits 8192) true .anon none, .write 1 (.ofBits 8192) #[9] (.ofBits 0),
      .newSpace]).any (fun r => decide (r.2.pageNumbers 2 = [] ∧ r.2.regionsOf 2 = [] ∧
        (r.2.pages.find? ⟨0, ⟨1⟩⟩).map (·.kind) = some (.anon (some ⟨0⟩)) ∧
        r.2.regions.find? ⟨0, ⟨65536⟩⟩ = some 1 ∧
        (∀ row ∈ r.2.frames.entries.rows, row.2.owners.length = 1)) &&
        (r.2.ask [] (.fork 0 2 .asStored)).any fun r₁ => r₁.1.flag? == some true) = true := by
    decide +kernel
  obtain ⟨⟨log, m⟩, hserved, hchecked⟩ := (Option.any_eq_true _ _).1 played
  obtain ⟨hstate, hforked⟩ := Bool.and_eq_true_iff.1 hchecked
  obtain ⟨no_page, no_region, swapped, region, alone⟩ := of_decide_eq_true hstate
  have reached : (Machine.fresh 2 (some 16) [.ofData #[46] false]).Reaches m :=
    Machine.Reaches.refl.serve hserved
  obtain ⟨⟨a, m'⟩, asked, hflag⟩ := (Option.any_eq_true _ _).1 hforked
  obtain rfl := Answer.flag?_eq_some.1 (beq_iff_eq.1 hflag)
  have copied := Machine.ask_eq_some.1 asked
  obtain ⟨-, regions, doubles, -⟩ :=
    copy_reproduces_space reached (by decide) no_page no_region copied
  obtain ⟨page, found, kind⟩ := Option.map_eq_some_iff.1 swapped
  obtain ⟨page', copy, double⟩ := doubles ⟨1⟩ page found
  obtain ⟨id, frame, resident, resident', owned, -, owners, -⟩ := double.shared (by rw [kind]; rfl)
  refine ⟨m, m', reached, copied, ⟨page, ⟨0⟩, found, kind, page', copy, id, frame, double, resident,
    resident', owned, fun r => (owners r).trans ?_⟩, (regions ⟨65536⟩).2.trans region⟩
  rw [← or_assoc]
  refine or_iff_left fun third => ?_
  obtain ⟨-, -, hne, i, f, hi, ha, hb⟩ := third
  exact many_of_mem hne ha hb (alone ⟨i, f⟩ (Table.find?_eq_some.1 hi))

end DemandPaging
