import DemandPaging.Proofs.Charts
import DemandPaging.Proofs.Exits

/-!
What tearing a space down leaves of it. Its pages and their entries are gone; so are its regions,
but only if there was a page, since a space without pages is left as it is.
-/

namespace DemandPaging

open DemandPaging.Core

variable {m m' m₁ : Machine} {s : SpaceId} {va : VirtAddr} {n : Nat} {loan : HandleCount}

theorem Table.filterKeys_eq_self {κ α : Type} [DecidableEq κ] {t : Table κ α} {p : κ → Bool}
    (h : ∀ k ∈ t.keys, p k = true) : t.filterKeys p = t := by
  refine Table.ext_rows (List.filter_eq_self.2 fun row hrow => h row.1 ?_)
  exact List.mem_map_of_mem hrow

namespace Machine

theorem regionsOf_eq_nil : m.regionsOf s = [] ↔ ∀ vpn, m.regions.find? ⟨s, vpn⟩ = none := by
  rw [regionsOf, List.filterMap_eq_nil_iff]
  constructor
  · intro h vpn
    cases found : m.regions.find? ⟨s, vpn⟩ with
    | none => rfl
    | some count =>
        have hrow := h _ (Table.find?_eq_some.1 found)
        dsimp only at hrow
        rw [if_pos rfl] at hrow
        exact nomatch hrow
  · rintro h ⟨ref, count⟩ hrow
    have found : m.regions.find? ref = some count := Table.find?_eq_some.2 hrow
    refine if_neg fun hspace => ?_
    subst hspace
    exact nomatch (h ref.vpn).symm.trans found

/-- The machine when a space was made anew, with the page table as it is. -/
def renewed (m : Machine) (s : SpaceId) : Machine :=
  { m with
    pages := m.pages.filterKeys fun ref => ref.space != s
    regions := m.regions.filterKeys fun ref => ref.space != s }

theorem renewed_eq (pages : ∀ vpn, m.pages.find? ⟨s, vpn⟩ = none)
    (regions : ∀ vpn, m.regions.find? ⟨s, vpn⟩ = none) : m.renewed s = m := by
  have others {α : Type} {t : Table PageRef α} (absent : ∀ vpn, t.find? ⟨s, vpn⟩ = none) :
      (t.filterKeys fun ref => ref.space != s) = t := by
    refine Table.filterKeys_eq_self fun ref hkey => bne_iff_ne.2 fun hspace => ?_
    subst hspace
    rw [Table.mem_keys, absent ref.vpn] at hkey
    exact nomatch hkey
  simp only [renewed, others pages, others regions]

end Machine

theorem unmap_unrecorded (absent : m.regions.find? ⟨s, va.vpnFloor⟩ = none) :
    ∃ m', unmap s va m = .ok (.error .invalid) m' := by
  unfold unmap
  by_cases aligned : va.isPageAligned = true
  · rw [if_pos aligned]
    refine ⟨{ m with console := .notMapped va :: m.console }, bind_ok.2 ⟨m, m, rfl, ?_⟩⟩
    rw [absent]
    exact bind_ok.2 ⟨(), _, rfl, rfl⟩
  · rw [if_neg aligned]
    exact ⟨m, rfl⟩

theorem unmap_recorded {count : Nat} (h : m.Tidy n loan) (aligned : va.isPageAligned = true)
    (found : m.regions.find? ⟨s, va.vpnFloor⟩ = some count) :
    ∃ m', unmap s va m = .ok (.ok ()) m' := by
  obtain ⟨result, m', run, -⟩ := (unmap_upholds s va h).result
  refine ⟨m', ?_⟩
  have hrun := run
  unfold unmap at hrun
  rw [if_pos aligned] at hrun
  replace hrun := bind_get_ok.1 hrun
  rw [found] at hrun
  obtain ⟨_, _, -, hrun⟩ := bind_ok.1 hrun
  obtain ⟨_, _, -, hrun⟩ := bind_ok.1 hrun
  obtain ⟨_, _, -, hrun⟩ := bind_ok.1 hrun
  obtain ⟨_, _, -, hrun⟩ := bind_ok.1 hrun
  rw [run, ← (pure_ok.1 hrun).1]

theorem Machine.Regional.pageStart {start : PageNum} {count : Nat} (h : m.Regional)
    (found : m.regions.find? ⟨s, start⟩ = some count) :
    start.pageStart.isPageAligned = true ∧ start.pageStart.vpnFloor = start := by
  obtain ⟨hcount, hend⟩ := h _ _ found
  obtain ⟨v⟩ := start
  simp only [pageSize, userSpaceEnd] at hend
  have hlt : v * pageSize < wordBound := by
    simp only [pageSize, wordBound]
    omega
  simp only [PageNum.pageStart, VirtAddr.ofBits, VirtAddr.isPageAligned, VirtAddr.pageOffset,
    VirtAddr.vpnFloor, Nat.mod_eq_of_lt hlt, beq_iff_eq, PageNum.mk.injEq]
  simp only [pageSize]
  omega

theorem Machine.Serves.single {op : Operation} {a : Answer} (h : m.Serves [(op, a)] m') :
    ∃ held, op.perform { m with held } = .ok a m' := by
  generalize hlog : [(op, a)] = log at h
  cases h with
  | nil => exact nomatch hlog
  | @next m₁ _ log op' a' held run answered =>
      cases log with
      | nil =>
          cases hlog
          generalize hnil : ([] : List Exchange) = log at run
          cases run with
          | nil => exact ⟨held, answered⟩
          | next => simp at hnil
      | cons e rest => simp at hlog

theorem unmap_answers {held : List PageRef} {result : Except Errno Unit}
    (h : unmap s va { m with held } = .ok result m') :
    (Operation.unmap s va).perform { m with held } = .ok (.accepted result) m' :=
  bind_ok.2 ⟨result, m', h, rfl⟩

theorem Machine.Tidy.tells_apart {start : PageNum} {count : Nat} (h : m.Tidy n loan)
    (regional : m.Regional) (found : m.regions.find? ⟨s, start⟩ = some count) :
    ∃ log m₁, m.Serves log m₁ ∧ ∀ m₂, ¬ (m.renewed s).Serves log m₂ := by
  obtain ⟨aligned, hstart⟩ := regional.pageStart found
  have hm : Machine.Tidy n loan { m with held := [] } := h.same rfl rfl
  obtain ⟨m₁, run⟩ := unmap_recorded hm aligned (hstart.symm ▸ found)
  have answered : m.Serves ([] ++ [(.unmap s start.pageStart, .accepted (.ok ()))]) m₁ :=
    .next [] .nil (unmap_answers run)
  refine ⟨[(.unmap s start.pageStart, .accepted (.ok ()))], m₁, answered, fun m₂ served => ?_⟩
  obtain ⟨held, answered⟩ := served.single
  have absent : (m.renewed s).regions.find? ⟨s, start.pageStart.vpnFloor⟩ = none :=
    (Operation.find?_keepOthers _ _ _).trans (if_pos rfl)
  obtain ⟨m₃, refused⟩ := unmap_unrecorded (m := { m.renewed s with held }) absent
  exact nomatch (unmap_answers refused).symm.trans answered

/-- Tearing a space down always comes to an end, with no page of the space left and no entry in its
page table. The space is then as good as one that was just made, if and only if it had a page or no
region before: then no region of it is left, and none can be removed before one is recorded anew. -/
theorem teardown_renews_iff {frames : Nat} {sectors : Option Nat} {files : List File}
    {allocator : Allocator} {held : List PageRef} {order : Traversal}
    (reached : (Machine.fresh frames sectors files allocator).Reaches m) :
    ∃ m', (Operation.teardown s order).perform { m with held } = .ok (.size 0) m' ∧
      (∀ vpn, m'.pages.find? ⟨s, vpn⟩ = none ∧ m'.mappings.find? ⟨s, vpn⟩ = none) ∧
      (m'.regionsOf s = [] ∧ m'.renewed s = m' ↔ m.pageNumbers s ≠ [] ∨ m.regionsOf s = []) ∧
      ((∀ log, (∃ m₁, m'.Serves log m₁) ↔ ∃ m₁, (m'.renewed s).Serves log m₁) ↔
        m.pageNumbers s ≠ [] ∨ m.regionsOf s = []) ∧
      (m.pageNumbers s ≠ [] ∨ m.regionsOf s = [] → ∀ log m₁, m'.Serves log m₁ →
        ∀ va, (∀ e ∈ log, ¬ e.1.bare.Grounds s va.vpnFloor e.2) → ∀ held', ∃ m₂,
          (Operation.unmap s va).perform { m₁ with held := held' } =
            .ok (.accepted (.error .invalid)) m₂) := by
  have fresh := Machine.fresh_tidy frames sectors files allocator
  have tidy : Machine.Tidy _ _ { m with held } := (reached.tidy fresh).same rfl rfl
  have regional := reached.regional fresh (Machine.fresh_regional _ _ _ _)
  obtain ⟨_, m', run, tidy'⟩ := (teardown_upholds (E := fun _ _ => False) s order tidy).result
  obtain ⟨_, -, -, gone⟩ := teardown_core tidy.sound run
  have empty := Machine.pageNumbers_eq_nil.2 gone
  have answered : (Operation.teardown s order).perform { m with held } = .ok (.size 0) m' := by
    refine bind_ok.2 ⟨_, m', run, bind_ok.2 ⟨m', m', rfl, ?_⟩⟩
    rw [Machine.pageCount, empty]
    rfl
  have regions : m'.regions = if m.pageNumbers s = [] then m.regions
      else m.regions.filterKeys fun ref => ref.space != s :=
    teardown_regions (m := { m with held }) tidy.sound run
  have unrecorded (used : m.pageNumbers s ≠ [] ∨ m.regionsOf s = []) (vpn : PageNum) :
      m'.regions.find? ⟨s, vpn⟩ = none := by
    rw [regions]
    split
    · next hempty => exact Machine.regionsOf_eq_nil.1 (used.resolve_left (not_not_intro hempty)) vpn
    · exact (Operation.find?_keepOthers _ _ _).trans (if_pos rfl)
  have asNew (used : m.pageNumbers s ≠ [] ∨ m.regionsOf s = []) : m'.renewed s = m' :=
    Machine.renewed_eq gone (unrecorded used)
  have leftover (unused : ¬ (m.pageNumbers s ≠ [] ∨ m.regionsOf s = [])) :
      ∃ log m₁, m'.Serves log m₁ ∧ ∀ m₂, ¬ (m'.renewed s).Serves log m₂ := by
    obtain ⟨hempty, hregions⟩ := not_or.1 unused
    rw [if_pos (not_not.1 hempty)] at regions
    obtain ⟨start, hfound⟩ := not_forall.1 (mt Machine.regionsOf_eq_nil.2 hregions)
    obtain ⟨count, found⟩ := Option.ne_none_iff_exists'.1 hfound
    have regional' : m'.Regional := fun ref count found => regional ref count (regions ▸ found)
    exact tidy'.tells_apart regional' (regions.symm ▸ found)
  refine ⟨m', answered, fun vpn => ⟨gone vpn, ?_⟩, ⟨fun new => ?_,
    fun used => ⟨Machine.regionsOf_eq_nil.2 (unrecorded used), asNew used⟩⟩, ⟨fun same => ?_,
    fun used log => ?_⟩, fun used log m₁ served va groundless held' => ?_⟩
  · -- an entry leads to a page of the space
    cases found : m'.mappings.find? ⟨s, vpn⟩ with
    | none => rfl
    | some entry =>
        obtain ⟨page, _, _, hpage, -⟩ := tidy'.sound.mapped _ entry found
        cases (gone vpn).symm.trans hpage
  · by_contra unused
    obtain ⟨log, m₁, served, hnever⟩ := leftover unused
    rw [new.2] at hnever
    exact hnever m₁ served
  · by_contra unused
    obtain ⟨log, m₁, served, hnever⟩ := leftover unused
    obtain ⟨m₂, served'⟩ := (same log).1 ⟨m₁, served⟩
    exact hnever m₂ served'
  · rw [asNew used]
  · have absent := served.unrecorded tidy' (unrecorded used va.vpnFloor) groundless
    obtain ⟨m₂, refused⟩ := unmap_unrecorded (m := { m₁ with held := held' }) absent
    exact ⟨m₂, unmap_answers refused⟩

/-- A mapped file is copied to another space, and then its only page in the first space is removed.
Tearing down the copy leaves nothing of it; tearing down the first space leaves its region, which
tells it from a new space. -/
theorem teardown_renews_copy : ∃ m, (Machine.fresh 2 none [.ofData #[46] false]).Reaches m ∧
    (∃ m', (Operation.teardown 1 .asStored).perform { m with held := [] } = .ok (.size 0) m' ∧
      m.regionsOf 1 ≠ [] ∧ m'.regionsOf 1 = [] ∧
      ∀ log, (∃ m₁, m'.Serves log m₁) ↔ ∃ m₁, (m'.renewed 1).Serves log m₁) ∧
    ∃ m', (Operation.teardown 0 .asStored).perform { m with held := [] } = .ok (.size 0) m' ∧
      m.pageNumbers 0 = [] ∧ ¬ ∀ log, (∃ m₁, m'.Serves log m₁) ↔
        ∃ m₁, (m'.renewed 0).Serves log m₁ := by
  have played : ((Machine.fresh 2 none [.ofData #[46] false]).serve [
      .map 0 (.ofBits 0x10000000) 1 true 0 0, .newSpace, .fork 0 1 .asStored,
      .remove 0 (.ofBits 0x10000000)]).any (fun r => decide (r.2.pageNumbers 0 = [] ∧
        r.2.regionsOf 0 ≠ [] ∧ r.2.pageNumbers 1 ≠ [] ∧ r.2.regionsOf 1 ≠ [])) = true := by
    decide +kernel
  obtain ⟨⟨log, m⟩, hserved, hchecked⟩ := (Option.any_eq_true _ _).1 played
  obtain ⟨empty, region, pages, region'⟩ := of_decide_eq_true hchecked
  have reached : (Machine.fresh 2 none [.ofData #[46] false]).Reaches m :=
    Machine.Reaches.refl.serve hserved
  obtain ⟨m', cleared, -, regions, same, -⟩ :=
    @teardown_renews_iff m 1 _ _ _ _ [] .asStored reached
  obtain ⟨m'', cleared', -, -, same', -⟩ :=
    @teardown_renews_iff m 0 _ _ _ _ [] .asStored reached
  refine ⟨m, reached, ⟨m', cleared, region', (regions.2 (.inl pages)).1, same.2 (.inl pages)⟩,
    m'', cleared', empty, fun hsame => ?_⟩
  exact (same'.1 hsame).elim (fun hpages => hpages empty) region

end DemandPaging
