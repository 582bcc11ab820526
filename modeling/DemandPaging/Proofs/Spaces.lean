import DemandPaging.Proofs.Contents
import DemandPaging.Proofs.Faults

namespace DemandPaging

open DemandPaging.Core

variable {m m' : Machine} {ref : PageRef} {page : Page} {s : SpaceId} {u : Unit}

def Deed.Admits (ref : PageRef) (d : Deed) : Prop := d.Settles ref ∨ d = .lose ref

theorem resolve_core {write done : Bool} (hs : m.core.Sound) (h : resolve ref write m = .ok done m') :
    ∃ ds, Steps m.core ds m'.core ∧ ∀ d ∈ ds, d.Admits ref := by
  cases resolve_resolves h with
  | absent => exact ⟨[], .refl _, nofun⟩
  | readOnly _ _ _ same => exact ⟨[], same ▸ .refl _, nofun⟩
  | claimed found _ _ run =>
      obtain ⟨ds, hsteps, hds, -, -⟩ := claimVacant_core hs found run
      exact ⟨ds, hsteps, fun d hd => .inl (hds d hd)⟩
  | parted found _ _ resident _ run =>
      obtain ⟨ds, hsteps, hds⟩ := breakSharing_core hs found resident run
      exact ⟨ds, hsteps, fun d hd => .inr (hds d hd)⟩
  | remapped found _ resident _ touched owned run =>
      obtain ⟨hstamp, found₁⟩ := touch_step found touched
      have resident₁ := (congrArg Page.frame (touch_core touched).1).trans resident
      exact ⟨[], hstamp.steps.trans (remap_steps found₁ resident₁ owned run), nofun⟩

theorem claim_core {done : Bool} (hs : m.core.Sound) (h : claim ref m = .ok done m') :
    ∃ ds, Steps m.core ds m'.core ∧ ∀ d ∈ ds, d.Settles ref := by
  obtain ⟨got, _, h₁, h⟩ := bind_ok.1 h
  obtain ⟨hgot, rfl⟩ := page?_core h₁
  cases got with
  | none =>
      obtain ⟨rfl, rfl⟩ := pure_ok.1 h
      exact ⟨[], .refl _, nofun⟩
  | some page =>
      dsimp only at h
      split at h
      · obtain ⟨rfl, rfl⟩ := pure_ok.1 h
        exact ⟨[], .refl _, nofun⟩
      · obtain ⟨ds, hsteps, hds, -, -⟩ := claimVacant_core hs hgot.symm h
        exact ⟨ds, hsteps, hds⟩

theorem find_core {va : VirtAddr} {got : Option Page} (h : find s va m = .ok got m') :
    Steps m.core [] m'.core ∧
      (got = none ↔ m.core.pages.find? ⟨s, va.vpnFloor⟩ = none) ∧
      (m'.core.pages.find? ⟨s, va.vpnFloor⟩ = none ↔ m.core.pages.find? ⟨s, va.vpnFloor⟩ = none) := by
  rcases find_ok h with ⟨rfl, absent, rfl⟩ | ⟨page, page', found, rfl, touched⟩
  · exact ⟨.refl _, ⟨fun _ => absent, fun _ => rfl⟩, Iff.rfl⟩
  · obtain ⟨stamped, found'⟩ := touch_step found touched
    have present : m.core.pages.find? ⟨s, va.vpnFloor⟩ = some page := found
    rw [present, found']
    exact ⟨stamped.steps, ⟨nofun, nofun⟩, ⟨nofun, nofun⟩⟩

theorem addPage_core {added : Bool} (h : addPage ref page m = .ok added m') :
    (added = true ∧ m.core.pages.find? ref = none ∧ m'.core = m.core.setPage ref page) ∨
      (added = false ∧ m.core.pages.find? ref ≠ none ∧ m'.core = m.core) := by
  obtain ⟨got, _, h₁, h⟩ := bind_ok.1 h
  obtain ⟨hgot, rfl⟩ := page?_core h₁
  cases got with
  | none =>
      obtain ⟨_, h₂, rfl⟩ := bind_pure_ok.1 h
      exact .inl ⟨rfl, hgot.symm, setPage_core h₂⟩
  | some old =>
      obtain ⟨_, m₁, h₂, h⟩ := bind_ok.1 h
      obtain ⟨_, h₃, rfl⟩ := bind_pure_ok.1 h
      exact .inr ⟨rfl, by rw [← hgot]; exact nofun, (PageKind.close_core h₃).trans (emit_core h₂)⟩

theorem addPage_added (h : addPage ref page m = .ok true m') :
    m.core.pages.find? ref = none ∧ m'.core = m.core.setPage ref page := by
  rcases addPage_core h with ⟨-, added⟩ | ⟨no, -⟩
  · exact added
  · exact nomatch no

theorem addPage_refused (h : addPage ref page m = .ok false m') : m'.core = m.core := by
  rcases addPage_core h with ⟨yes, -⟩ | ⟨-, -, hm'⟩
  · exact nomatch yes
  · exact hm'

inductive Core.Adds (c : Core) (ref : PageRef) (page : Page) : Bool → List Deed → Prop where
  | added (vacant : c.pages.find? ref = none) : Adds c ref page true [.add ref page]
  | refused : Adds c ref page false []

theorem addFresh_core {writable added : Bool} {kind : PageKind}
    (no_slot : ∀ slot, kind ≠ .anon (some slot))
    (h : addPage ref (.fresh ref.space writable kind) m = .ok added m') :
    ∃ ds, Steps m.core ds m'.core ∧
      m.core.Adds ref (.fresh ref.space writable kind) added ds := by
  rcases addPage_core h with ⟨rfl, vacant, hm'⟩ | ⟨rfl, -, hm'⟩
  · rw [hm']
    exact ⟨_, (Step.add vacant no_slot).steps, .added vacant⟩
  · rw [hm']
    exact ⟨[], .refl _, .refused⟩

theorem insert_core {va : VirtAddr} {writable added : Bool} {kind : PageKind}
    (no_slot : ∀ slot, kind ≠ .anon (some slot)) (h : insert s va writable kind m = .ok added m') :
    ∃ ds, Steps m.core ds m'.core ∧
      m.core.Adds ⟨s, va.vpnFloor⟩ (.fresh s writable kind) added ds := by
  unfold insert at h
  split at h
  · exact addFresh_core no_slot h
  · exact (throw_ok.1 h).elim

theorem declare_core {va : VirtAddr} {writable added : Bool} {target : PageTarget}
    {init : Option Initializer} (h : declare s va writable target init m = .ok added m') :
    ∃ ds, Steps m.core ds m'.core ∧
      m.core.Adds ⟨s, va.vpnFloor⟩ (.fresh s writable (.uninit target init)) added ds := by
  unfold declare at h
  split at h
  · exact addFresh_core nofun h
  · obtain ⟨_, m₁, h₁, h⟩ := bind_ok.1 h
    obtain ⟨_, h₂, rfl⟩ := bind_pure_ok.1 h
    rw [PageKind.close_core h₂, emit_core h₁]
    exact ⟨[], .refl _, .refused⟩

theorem removeRef_parts {removed : Bool} (h : removeRef ref m = .ok removed m') :
    (removed = false ∧ m.core.pages.find? ref = none ∧ m = m') ∨
    (removed = true ∧ ∃ page m₁ m₂, m.core.pages.find? ref = some page ∧ dropPage ref m = .ok ⟨⟩ m₁ ∧
      vacate ref page m₁ = .ok ⟨⟩ m₂ ∧ page.kind.close m₂ = .ok ⟨⟩ m') := by
  obtain ⟨got, _, h₁, h⟩ := bind_ok.1 h
  obtain ⟨hgot, rfl⟩ := page?_core h₁
  cases got with
  | none =>
      obtain ⟨rfl, rfl⟩ := pure_ok.1 h
      exact .inl ⟨rfl, hgot.symm, rfl⟩
  | some page =>
      obtain ⟨_, m₁, dropped, h⟩ := bind_ok.1 h
      obtain ⟨_, h₃, rfl⟩ := bind_pure_ok.1 h
      obtain ⟨_, m₂, vacated, closed⟩ := bind_ok.1 h₃
      exact .inr ⟨rfl, page, m₁, m₂, hgot.symm, dropped, vacated, closed⟩

theorem removeRef_core {removed : Bool} (h : removeRef ref m = .ok removed m') :
    (removed = false ∧ m.core.pages.find? ref = none ∧ m'.core = m.core) ∨
      (removed = true ∧ m'.core.pages.find? ref = none ∧ Step m.core [.drop ref] m'.core) := by
  rcases removeRef_parts h with ⟨rfl, absent, rfl⟩ | ⟨rfl, page, m₁, m₂, found, h₁, h₂, closed⟩
  · exact .inl ⟨rfl, absent, rfl⟩
  · have hm₁ := dropPage_core h₁
    have herased : m₁.core.pages.find? ref = none := by
      rw [hm₁]
      exact Table.find?_erase_self
    rw [PageKind.close_core closed]
    refine .inr ⟨rfl, ?_⟩
    cases hf : page.frame with
    | none =>
        simp only [vacate, hf] at h₂
        have hdisposes := PageKind.dispose_away hf h₂
        rw [hm₁] at hdisposes
        refine ⟨?_, .dropAway found hf hdisposes⟩
        obtain ⟨swap, files, hcore⟩ := hdisposes.core_eq
        rw [hcore, ← hm₁]
        exact herased
    | some id =>
        simp only [vacate, hf] at h₂
        obtain ⟨_, _, h₃, h₂⟩ := bind_ok.1 h₂
        obtain ⟨frame, hframe, rfl, rfl⟩ := physPage_core h₃
        obtain ⟨_, m₃, h₄, h₂⟩ := bind_ok.1 h₂
        obtain ⟨c₁, hdisposes, hunmap⟩ := PageKind.dispose_resident hf hframe h₄
        obtain ⟨_, m₄, h₅, h₂⟩ := bind_ok.1 h₂
        obtain ⟨frame', hframe', hm₂⟩ := unlink_core h₂
        rw [clearMapping_core h₅, hunmap] at hframe' hm₂
        rw [hm₁] at hframe hdisposes
        have hstep (hsame : frame' = frame) : Step m.core [.drop ref] m₂.core := by
          rw [hm₂, hsame]
          exact .drop found hf hframe hdisposes
        obtain ⟨swap, files, rfl⟩ := hdisposes.core_eq
        refine ⟨?_, hstep (Option.some.inj (hframe'.symm.trans hframe))⟩
        obtain ⟨_, _, _, heq, -⟩ := disown_eq (Core.unmap { m.core with
          pages := m.core.pages.erase ref, swap, files } (page.entryRef ref)) id frame' ref
        rw [hm₂, heq]
        exact Table.find?_erase_self

theorem Core.Steps.vacant_of_drops {c c' : Core} {ds : List Deed} (h : Steps c ds c') (hs : c.Sound)
    (hds : ∀ d ∈ ds, ∃ r, d = .drop r) (vacant : c.pages.find? ref = none) :
    c'.pages.find? ref = none := by
  refine h.vacant hs (fun d hd hw => ?_) vacant (fun page hm => ?_) fun src whole hm => ?_
  · obtain ⟨r, rfl⟩ := hds d hd
    exact hw
  · obtain ⟨r, hdrop⟩ := hds _ hm
    exact nomatch hdrop
  · obtain ⟨r, hdrop⟩ := hds _ hm
    exact nomatch hdrop

theorem destroyPages_core {vpns : List PageNum} (hs : m.core.Sound)
    (h : destroyPages s vpns m = .ok u m') :
    ∃ ds, Steps m.core ds m'.core ∧ (∀ d ∈ ds, ∃ vpn ∈ vpns, d = .drop ⟨s, vpn⟩) ∧
      ∀ vpn ∈ vpns, m'.core.pages.find? ⟨s, vpn⟩ = none := by
  induction vpns generalizing m with
  | nil =>
      obtain ⟨rfl, rfl⟩ := pure_ok.1 h
      exact ⟨[], .refl _, nofun, nofun⟩
  | cons vpn rest ih =>
      obtain ⟨removed, m₁, h₁, h⟩ := bind_ok.1 h
      obtain ⟨ds, hfirst, hnone, hds⟩ : ∃ ds, Steps m.core ds m₁.core ∧
          m₁.core.pages.find? ⟨s, vpn⟩ = none ∧ ∀ d ∈ ds, d = .drop ⟨s, vpn⟩ := by
        rcases removeRef_core h₁ with ⟨-, hnone, hm₁⟩ | ⟨-, hnone, hstep⟩
        · rw [hm₁]
          exact ⟨[], .refl _, hnone, nofun⟩
        · exact ⟨_, hstep.steps, hnone, fun d hd => List.mem_singleton.1 hd⟩
      have hs₁ := hfirst.sound hs
      obtain ⟨es, hrest, hes, hgone⟩ := ih hs₁ h
      refine ⟨ds ++ es, hfirst.trans hrest, fun d hd => ?_, fun v hv => ?_⟩
      · rcases List.mem_append.1 hd with hd | hd
        · exact ⟨vpn, List.mem_cons_self, hds d hd⟩
        · obtain ⟨v, hv, hdrop⟩ := hes d hd
          exact ⟨v, List.mem_cons_of_mem vpn hv, hdrop⟩
      · rcases List.mem_cons.1 hv with rfl | hv
        · refine hrest.vacant_of_drops hs₁ (fun d hd => ?_) hnone
          obtain ⟨w, -, hdrop⟩ := hes d hd
          exact ⟨_, hdrop⟩
        · exact hgone v hv

theorem Machine.mem_pageNumbers {vpn : PageNum} :
    vpn ∈ m.pageNumbers s ↔ m.core.pages.find? ⟨s, vpn⟩ ≠ none := by
  have hkeys : (⟨s, vpn⟩ : PageRef) ∈ m.pages.keys ↔ m.core.pages.find? ⟨s, vpn⟩ ≠ none := by
    rw [Table.mem_keys, Option.isSome_iff_ne_none]
    rfl
  rw [← hkeys]
  simp only [pageNumbers, List.mem_filterMap]
  constructor
  · rintro ⟨ref, hmem, hif⟩
    split at hif
    · next hspace =>
        cases hif
        cases hspace
        exact hmem
    · exact nomatch hif
  · intro hmem
    exact ⟨_, hmem, if_pos rfl⟩

def Deed.Clears (regions : Table PageRef Nat) (s : SpaceId) (d : Deed) : Prop :=
  (∃ vpn, d = .drop ⟨s, vpn⟩) ∨ d = .chart (regions.filterKeys fun ref => ref.space != s)

theorem teardown_parts {order : Traversal} (h : teardown s order m = .ok u m') :
    (m.pageNumbers s = [] ∧ m = m') ∨
    (m.pageNumbers s ≠ [] ∧ ∃ console, destroyPages s (order.visit (m.pageNumbers s)) { m with
      console, regions := m.regions.filterKeys fun ref => ref.space != s } = .ok ⟨⟩ m') := by
  replace h := bind_get_ok.1 h
  simp only [List.isEmpty_iff] at h
  split at h
  · next empty =>
      obtain ⟨-, rfl⟩ := pure_ok.1 h
      exact .inl ⟨empty, rfl⟩
  · next pages =>
      obtain ⟨_, m₁, h₁, h⟩ := bind_ok.1 h
      obtain ⟨_, m₂, h₂, h⟩ := bind_ok.1 h
      obtain rfl := emit_ok.1 h₁
      obtain rfl := modify_ok.1 h₂
      exact .inr ⟨pages, _, h⟩

theorem teardown_core {order : Traversal} (hs : m.core.Sound) (h : teardown s order m = .ok u m') :
    ∃ ds, Steps m.core ds m'.core ∧ (∀ d ∈ ds, d.Clears m.core.regions s) ∧
      ∀ vpn, m'.core.pages.find? ⟨s, vpn⟩ = none := by
  rcases teardown_parts h with ⟨empty, rfl⟩ | ⟨-, console, h⟩
  · refine ⟨[], .refl _, nofun, fun vpn => ?_⟩
    by_contra hne
    have hmem := Machine.mem_pageNumbers.2 hne
    rw [empty] at hmem
    exact nomatch hmem
  · have hchart : Step m.core [.chart (m.core.regions.filterKeys fun ref => ref.space != s)]
        { m.core with regions := m.core.regions.filterKeys fun ref => ref.space != s } := .chart _
    have hs₁ := hchart.sound hs
    obtain ⟨ds, hsteps, hds, hgone⟩ := destroyPages_core (by exact hs₁) h
    refine ⟨_, hchart.steps.trans hsteps, fun d hd => ?_, fun vpn => ?_⟩
    · rcases List.mem_append.1 hd with hd | hd
      · exact .inr (List.mem_singleton.1 hd)
      · obtain ⟨vpn, -, hdrop⟩ := hds d hd
        exact .inl ⟨vpn, hdrop⟩
    · by_cases hv : vpn ∈ order.visit (m.pageNumbers s)
      · exact hgone vpn hv
      · have hnone : m.core.pages.find? ⟨s, vpn⟩ = none := by
          by_contra hne
          exact hv ((order.perm _).mem_iff.2 (Machine.mem_pageNumbers.2 hne))
        refine hsteps.vacant_of_drops hs₁ (fun d hd => ?_) hnone
        obtain ⟨w, -, hdrop⟩ := hds d hd
        exact ⟨_, hdrop⟩

theorem exitSpace_core {order : Traversal} (hs : m.core.Sound) (h : exitSpace s order m = .ok u m') :
    ∃ ds, Steps m.core ds m'.core ∧ (∀ d ∈ ds, d.Clears m.core.regions s) ∧
      ∀ vpn, m'.core.pages.find? ⟨s, vpn⟩ = none := by
  obtain ⟨_, m₁, h₁, h⟩ := bind_ok.1 h
  have hm' : m'.core = m₁.core := modify_core h fun _ => rfl
  rw [hm']
  exact teardown_core hs h₁

inductive Core.Copies (c : Core) (src dst : PageRef) : Bool → List Deed → Prop where
  | absent (absent : c.pages.find? src = none) : Copies c src dst true []
  | unused {page : Page} (found : c.pages.find? src = some page) (unused : page.kind.isUninit = true)
      (vacant : c.pages.find? dst = none) :
      Copies c src dst true [.add dst (.fresh dst.space page.writable page.kind)]
  | shared {page : Page} (found : c.pages.find? src = some page) (used : page.kind.isUninit = false)
      (vacant : c.pages.find? dst = none) : Copies c src dst true [.share src dst true]
  | half : Copies c src dst false [.share src dst false]
  | failed : Copies c src dst false []

def Core.Shares (c : Core) (src dst : PageRef) : Prop :=
  ∃ page copy id, c.pages.find? src = some page ∧ c.pages.find? dst = some copy ∧
    page.frame = some id ∧ copy.frame = some id ∧ copy.kind = page.kind.twin

structure Core.Leads (c c' : Core) (src dst : PageRef) : Prop where
  shares : ∀ page, c.pages.find? src = some page → page.kind.isUninit = false → c'.Shares src dst
  keeps : ∀ r page id frame, r ≠ src → r ≠ dst → c.pages.find? r = some page →
    page.frame = some id → c.frames.find? id = some frame → frame.owners.length ≠ 1 →
      c'.pages.find? r = some page

theorem Core.Step.share_leads {c c' : Core} {src dst : PageRef} (h : Step c [.share src dst true] c') :
    c'.Shares src dst ∧ ∀ r, r ≠ src → r ≠ dst → c'.pages.find? r = c.pages.find? r := by
  cases h with
  | @share _ _ page id frame found used vacant resident owned =>
      obtain ⟨hsrc, hdst, -⟩ := @share_find page id frame c src dst (ne_of_found found vacant)
      refine ⟨⟨_, _, id, hsrc, hdst, resident, rfl, rfl⟩, fun r hs hd => ?_⟩
      refine (Table.find?_insert_of_ne hs).trans ?_
      exact Table.find?_insert_of_ne hd
  | fill _ _ _ filled => exact (filled.settles.1 _ List.mem_cons_self).elim

/-- How two pages are mapped to one frame, for reading: the page tables may refuse either of the entries. -/
inductive Machine.MapsBoth (m : Machine) (src dst : PageRef) (phys : PhysPage) :
    Bool → Machine → Prop where
  | none {m' : Machine} (refused : remap src phys false m = .ok false m') :
      MapsBoth m src dst phys false m'
  | one {m₁ m' : Machine} (remapped : remap src phys false m = .ok true m₁)
      (refused : install dst phys false m₁ = .ok false m') : MapsBoth m src dst phys false m'
  | both {m₁ m₂ m' : Machine} {event : Event} (remapped : remap src phys false m = .ok true m₁)
      (entered : install dst phys false m₁ = .ok true m₂) (told : emit event m₂ = .ok ⟨⟩ m') :
      MapsBoth m src dst phys true m'

/-- How a page comes to share its frame: there may be no copy of what it holds, or no room for the copy.
Otherwise the copy is an owner of the frame, both pages count as shared, and they are mapped. -/
inductive Machine.SharesFrame (m : Machine) (src dst : PageRef) (page : Page) (id : FrameId) :
    Bool → Machine → Prop where
  | notCopied {m₁ m' : Machine} {event : Event} (copied : page.kind.duplicate m = .ok none m₁)
      (told : emit event m₁ = .ok ⟨⟩ m') : SharesFrame m src dst page id false m'
  | notAdded {kind : PageKind} {m₁ m' : Machine} (copied : page.kind.duplicate m = .ok (some kind) m₁)
      (refused : addPage dst ⟨dst.space, page.writable, some id, page.lastAccess, true, kind⟩ m₁ =
        .ok false m') : SharesFrame m src dst page id false m'
  | mapped {kind : PageKind} {frame : Frame} {done : Bool} {m₁ m₂ m₃ m₄ m' : Machine}
      (copied : page.kind.duplicate m = .ok (some kind) m₁)
      (added : addPage dst ⟨dst.space, page.writable, some id, page.lastAccess, true, kind⟩ m₁ =
        .ok true m₂)
      (linked : link id dst m₂ = .ok ⟨⟩ m₃) (owned : m₃.core.frames.find? id = some frame)
      (marked : setPage src { page with cow := true } m₃ = .ok ⟨⟩ m₄)
      (maps : m₄.MapsBoth (page.entryRef src) dst frame.page done m') :
      SharesFrame m src dst page id done m'

theorem shareFrame_shares {src dst : PageRef} {id : FrameId} {done : Bool}
    (h : shareFrame src dst page id m = .ok done m') : m.SharesFrame src dst page id done m' := by
  obtain ⟨got, m₁, copied, h⟩ := bind_ok.1 h
  cases got with
  | none =>
      obtain ⟨_, told, rfl⟩ := bind_pure_ok.1 h
      exact .notCopied copied told
  | some kind =>
      obtain ⟨added, m₂, hadd, h⟩ := bind_ok.1 h
      cases added with
      | false =>
          obtain ⟨rfl, rfl⟩ := pure_ok.1 h
          exact .notAdded copied hadd
      | true =>
          obtain ⟨_, m₃, linked, h⟩ := bind_ok.1 h
          obtain ⟨_, _, h₄, h⟩ := bind_ok.1 h
          obtain ⟨frame, owned, rfl, rfl⟩ := physPage_core h₄
          obtain ⟨_, m₄, marked, h⟩ := bind_ok.1 h
          refine .mapped copied hadd linked owned marked ?_
          obtain ⟨remapped, m₅, h₅, h⟩ := bind_ok.1 h
          cases remapped with
          | false =>
              obtain ⟨rfl, rfl⟩ := pure_ok.1 h
              exact .none h₅
          | true =>
              obtain ⟨entered, m₆, h₆, h⟩ := bind_ok.1 h
              cases entered with
              | false =>
                  obtain ⟨rfl, rfl⟩ := pure_ok.1 h
                  exact .one h₅ h₆
              | true =>
                  obtain ⟨_, told, rfl⟩ := bind_pure_ok.1 h
                  exact .both h₅ h₆ told

theorem shareFrame_core {src dst : PageRef} {id : FrameId} {done : Bool} (hs : m.core.Sound)
    (found : m.core.pages.find? src = some page) (resident : page.frame = some id)
    (h : shareFrame src dst page id m = .ok done m') :
    (done = true ∧ m.core.pages.find? dst = none ∧ Step m.core [.share src dst true] m'.core) ∨
      (done = false ∧ (m'.core = m.core ∨ Step m.core [.share src dst false] m'.core)) := by
  cases shareFrame_shares h with
  | notCopied copied told =>
      exact .inr ⟨rfl, .inl ((emit_core told).trans (PageKind.duplicate_core copied).1)⟩
  | notAdded copied refused =>
      exact .inr ⟨rfl, .inl ((addPage_refused refused).trans (PageKind.duplicate_core copied).1)⟩
  | @mapped kind _ _ _ m₂ m₃ m₄ _ copied added linked owned marked maps =>
      obtain ⟨hm₁, htwin⟩ := PageKind.duplicate_core copied
      obtain rfl := htwin kind rfl
      obtain ⟨vacant, hm₂⟩ := addPage_added added
      rw [hm₁] at vacant hm₂
      obtain ⟨frame, hframe, hm₃⟩ := link_core linked
      rw [hm₂] at hframe hm₃
      replace hframe : m.core.frames.find? id = some frame := hframe
      rw [hm₃] at owned
      cases Option.some.inj (FrameTable.find?_update_self.symm.trans owned)
      have hm₄ : m₄.core = m.core.share src dst page id frame := by
        rw [setPage_core marked, hm₃]
        rfl
      have hused := hs.used found resident
      cases maps with
      | none refused =>
          obtain ⟨hm', k, hno⟩ := remap_refused refused
          rw [hm₄] at hno
          refine .inr ⟨rfl, .inr ?_⟩
          rw [hm']
          exact .shareHalf found hused vacant resident hframe hno (.inl hm₄)
      | one remapped refused =>
          obtain ⟨hm', k, hno⟩ := install_refused refused
          have hm₅ := remap_done remapped
          rw [hm₄] at hm₅
          rw [hm₅] at hno
          refine .inr ⟨rfl, .inr ?_⟩
          rw [hm']
          exact .shareHalf found hused vacant resident hframe hno (.inr hm₅)
      | both remapped entered told =>
          refine .inl ⟨rfl, vacant, ?_⟩
          rw [emit_core told, install_granted entered, remap_done remapped, hm₄]
          exact .share found hused vacant resident hframe

theorem copyUsed_parts {src dst : PageRef} {done : Bool} (h : copyUsed src dst page m = .ok done m') :
    ∃ back m₁, bringBack src page m = .ok back m₁ ∧ ((done = false ∧ m₁ = m') ∨
      ∃ page₁ id, m₁.core.pages.find? src = some page₁ ∧ page₁.frame = some id ∧
        shareFrame src dst page₁ id m₁ = .ok done m') := by
  obtain ⟨back, m₁, h₁, h⟩ := bind_ok.1 h
  refine ⟨back, m₁, h₁, ?_⟩
  cases back with
  | false =>
      obtain ⟨rfl, rfl⟩ := pure_ok.1 h
      exact .inl ⟨rfl, rfl⟩
  | true =>
      obtain ⟨got, _, h₂, h⟩ := bind_ok.1 h
      obtain ⟨hgot, rfl⟩ := page?_core h₂
      cases got with
      | none =>
          obtain ⟨rfl, rfl⟩ := pure_ok.1 h
          exact .inl ⟨rfl, rfl⟩
      | some page₁ =>
          cases hf : page₁.frame with
          | none =>
              simp only [hf] at h
              obtain ⟨rfl, rfl⟩ := pure_ok.1 h
              exact .inl ⟨rfl, rfl⟩
          | some id =>
              simp only [hf] at h
              exact .inr ⟨page₁, id, hgot.symm, hf, h⟩

theorem copyUsed_core {src dst : PageRef} {done : Bool} (hs : m.core.Sound)
    (found : m.core.pages.find? src = some page) (used : page.kind.isUninit = false)
    (h : copyUsed src dst page m = .ok done m') :
    ∃ ds, Steps m.core ds m'.core ∧ m.core.Copies src dst done ds ∧
      (done = true → m.core.Leads m'.core src dst) := by
  obtain ⟨back, m₁, h₁, h⟩ := copyUsed_parts h
  have hback : Steps m.core [] m₁.core ∧ m.core.KeepsShared m₁.core src := by
    unfold bringBack at h₁
    split at h₁
    · obtain ⟨rfl, rfl⟩ := pure_ok.1 h₁
      exact ⟨.refl _, fun _ _ _ _ _ hp _ _ _ => hp⟩
    · obtain ⟨ds, hsteps, -, hds, hkeeps⟩ := claimVacant_core hs found h₁
      rw [hds used] at hsteps
      exact ⟨hsteps, hkeeps⟩
  obtain ⟨hback, hkeeps⟩ := hback
  rcases h with ⟨rfl, rfl⟩ | ⟨page₁, id, found₁, resident₁, h⟩
  · exact ⟨[], hback, .failed, nofun⟩
  · rcases shareFrame_core (hback.sound hs) found₁ resident₁ h with ⟨rfl, vacant, hstep⟩ |
      ⟨rfl, hm' | hstep⟩
    · refine ⟨_, hback.trans hstep.steps, .shared found used ?_, fun _ => ?_⟩
      · rw [← flat_eq_none] at vacant ⊢
        rwa [hback.flat hs nofun] at vacant
      · obtain ⟨hshares, hothers⟩ := hstep.share_leads
        refine ⟨fun _ _ _ => hshares, fun r p i f hsrc hdst hp hi hf hmany => ?_⟩
        rw [hothers r hsrc hdst]
        exact hkeeps r p i f hsrc hp hi hf hmany
    · rw [hm']
      exact ⟨[], hback, .failed, nofun⟩
    · exact ⟨_, hback.trans hstep.steps, .half, nofun⟩

theorem copyUnused_core {dst : PageRef} {done : Bool} (unused : page.kind.isUninit = true)
    (h : copyUnused page dst m = .ok done m') :
    (done = true ∧ m.core.pages.find? dst = none ∧
      m'.core = m.core.setPage dst (.fresh dst.space page.writable page.kind)) ∨
      (done = false ∧ m'.core = m.core) := by
  obtain ⟨copied, m₁, h₁, h⟩ := bind_ok.1 h
  obtain ⟨hm₁, htwin⟩ := PageKind.duplicate_core h₁
  cases copied with
  | none =>
      obtain ⟨_, h₂, rfl⟩ := bind_pure_ok.1 h
      exact .inr ⟨rfl, (emit_core h₂).trans hm₁⟩
  | some kind =>
      have hkind : kind = page.kind := by
        rw [htwin kind rfl]
        cases hk : page.kind with
        | anon =>
            rw [hk] at unused
            exact nomatch unused
        | _ => rfl
      subst hkind
      have hadd := addPage_core h
      rw [hm₁] at hadd
      rcases hadd with ⟨rfl, vacant, hm'⟩ | ⟨rfl, -, hm'⟩
      · exact .inl ⟨rfl, vacant, hm'⟩
      · exact .inr ⟨rfl, hm'⟩

theorem copyPage_core {src dst : SpaceId} {vpn : PageNum} {done : Bool} (hs : m.core.Sound)
    (h : copyPage src dst vpn m = .ok done m') :
    ∃ ds, Steps m.core ds m'.core ∧ m.core.Copies ⟨src, vpn⟩ ⟨dst, vpn⟩ done ds ∧
      (done = true → m.core.Leads m'.core ⟨src, vpn⟩ ⟨dst, vpn⟩) := by
  obtain ⟨got, _, h₁, h⟩ := bind_ok.1 h
  obtain ⟨hgot, rfl⟩ := page?_core h₁
  cases got with
  | none =>
      obtain ⟨rfl, rfl⟩ := pure_ok.1 h
      refine ⟨[], .refl _, .absent hgot.symm, fun _ => ⟨fun page hpage => ?_, ?_⟩⟩
      · rw [← hgot] at hpage
        exact nomatch hpage
      · exact fun _ _ _ _ _ _ hp _ _ _ => hp
  | some page =>
      dsimp only at h
      split at h
      · next hunused =>
          rcases copyUnused_core hunused h with ⟨rfl, vacant, hm'⟩ | ⟨rfl, hm'⟩
          · have hslot (slot : SwapSlot) : page.kind ≠ .anon (some slot) := by
              intro hk
              rw [hk] at hunused
              exact nomatch hunused
            rw [hm']
            refine ⟨_, (Step.add vacant hslot).steps, .unused hgot.symm hunused vacant,
              fun _ => ⟨fun p hp hu => ?_, fun r p i f hsrc hdst hp hi hf hmany => ?_⟩⟩
            · rw [← hgot] at hp
              cases hp
              rw [hunused] at hu
              exact nomatch hu
            · exact (Table.find?_insert_of_ne hdst).trans hp
          · rw [hm']
            exact ⟨[], .refl _, .failed, nofun⟩
      · next hused =>
          exact copyUsed_core hs hgot.symm (Bool.not_eq_true _ ▸ hused) h

/-- What copying pages one after the other comes to; the first failure ends it. -/
inductive Core.CopiesAll (src dst : SpaceId) : Core → List PageNum → Bool → List Deed → Core → Prop where
  | nil {c : Core} : CopiesAll src dst c [] true [] c
  | next {c c₁ c₂ : Core} {vpn : PageNum} {vpns : List PageNum} {done : Bool} {ds es : List Deed}
      (first : Steps c ds c₁) (copies : c.Copies ⟨src, vpn⟩ ⟨dst, vpn⟩ true ds)
      (leads : c.Leads c₁ ⟨src, vpn⟩ ⟨dst, vpn⟩) (rest : CopiesAll src dst c₁ vpns done es c₂) :
      CopiesAll src dst c (vpn :: vpns) done (ds ++ es) c₂
  | stop {c c₁ : Core} {vpn : PageNum} {vpns : List PageNum} {ds : List Deed}
      (first : Steps c ds c₁) (copies : c.Copies ⟨src, vpn⟩ ⟨dst, vpn⟩ false ds) :
      CopiesAll src dst c (vpn :: vpns) false ds c₁

theorem copyPages_core {src dst : SpaceId} {vpns : List PageNum} {done : Bool} (hs : m.core.Sound)
    (h : copyPages src dst vpns m = .ok done m') :
    ∃ ds, Core.CopiesAll src dst m.core vpns done ds m'.core := by
  induction vpns generalizing m with
  | nil =>
      obtain ⟨rfl, rfl⟩ := pure_ok.1 h
      exact ⟨[], .nil⟩
  | cons vpn rest ih =>
      obtain ⟨copied, m₁, h₁, h⟩ := bind_ok.1 h
      obtain ⟨ds, hsteps, hcopies, hleads⟩ := copyPage_core hs h₁
      cases copied with
      | true =>
          obtain ⟨es, hrest⟩ := ih (hsteps.sound hs) h
          exact ⟨ds ++ es, .next hsteps hcopies (hleads rfl) hrest⟩
      | false =>
          obtain ⟨rfl, rfl⟩ := pure_ok.1 h
          exact ⟨ds, .stop hsteps hcopies⟩

theorem Core.CopiesAll.steps {src dst : SpaceId} {c c' : Core} {vpns : List PageNum} {done : Bool}
    {ds : List Deed} (h : CopiesAll src dst c vpns done ds c') : Steps c ds c' := by
  induction h with
  | nil => exact .refl _
  | next first _ _ _ ih => exact first.trans ih
  | stop first copies => exact first

theorem copySpace_parts {src dst : SpaceId} {order : Traversal} {done : Bool}
    (h : copySpace src dst order m = .ok done m') :
    ∃ m₁, copyPages src dst (order.visit (m.pageNumbers src)) m = .ok done m₁ ∧
      ((done = true ∧ copyRegions src dst m₁ = .ok ⟨⟩ m') ∨ (done = false ∧ m₁ = m')) := by
  replace h := bind_get_ok.1 h
  obtain ⟨copied, m₁, h₁, h⟩ := bind_ok.1 h
  cases copied with
  | true =>
      obtain ⟨_, h₂, rfl⟩ := bind_pure_ok.1 h
      exact ⟨m₁, h₁, .inl ⟨rfl, h₂⟩⟩
  | false =>
      obtain ⟨rfl, rfl⟩ := pure_ok.1 h
      exact ⟨m₁, h₁, .inr ⟨rfl, rfl⟩⟩

theorem copySpace_core {src dst : SpaceId} {order : Traversal} {done : Bool} (hs : m.core.Sound)
    (h : copySpace src dst order m = .ok done m') :
    ∃ ds c, Core.CopiesAll src dst m.core (order.visit (m.pageNumbers src)) done ds c ∧
      ((done = true ∧ ∃ regions, Step c [.chart regions] m'.core) ∨
        (done = false ∧ m'.core = c)) := by
  obtain ⟨m₁, copied, hrest⟩ := copySpace_parts h
  obtain ⟨ds, hall⟩ := copyPages_core hs copied
  refine ⟨ds, m₁.core, hall, ?_⟩
  rcases hrest with ⟨rfl, charted⟩ | ⟨rfl, rfl⟩
  · obtain rfl := modify_ok.1 charted
    exact .inl ⟨rfl, _, .chart _⟩
  · exact .inr ⟨rfl, rfl⟩

end DemandPaging
