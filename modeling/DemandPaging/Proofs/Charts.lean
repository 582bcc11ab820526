import DemandPaging.Proofs.Sights
import DemandPaging.Proofs.Upkeep

/-!
The regions that are recorded for the spaces. What a request does to them can be told from its
answer: mapping a file and copying a space record regions, removing one and tearing a space down
forget them, and nothing else touches them.
-/

namespace DemandPaging

open DemandPaging.Core

variable {m m' m₁ : Machine} {s src dst : SpaceId} {va : VirtAddr} {op : Operation} {a : Answer}
  {u : Unit}

namespace Table

def copied (regions : Table PageRef Nat) (src dst : SpaceId) : Table PageRef Nat :=
  (regions.rows.filterMap fun (ref, count) =>
    if ref.space = src then some (ref.vpn, count) else none).foldl
      (fun t (vpn, count) => t.insert ⟨dst, vpn⟩ count) regions

theorem find?_foldl_copied {rows : List (PageRef × Nat)} (nodup : (rows.map Prod.fst).Nodup)
    (t : Table PageRef Nat) (ref : PageRef) :
    ((rows.filterMap fun (ref, count) =>
      if ref.space = src then some (ref.vpn, count) else none).foldl
        (fun t (vpn, count) => t.insert ⟨dst, vpn⟩ count) t).find? ref =
      if ref.space = dst then (findRow? ⟨src, ref.vpn⟩ rows).or (t.find? ref) else t.find? ref := by
  obtain ⟨s', v⟩ := ref
  induction rows generalizing t with
  | nil => simp [findRow?]
  | cons row rest ih =>
      obtain ⟨⟨s, vpn⟩, count⟩ := row
      obtain ⟨hfresh, hrest⟩ := List.nodup_cons.1 nodup
      by_cases hs : s = src
      · subst hs
        simp only [List.filterMap_cons, if_pos, List.foldl_cons, ih hrest, find?_insert, findRow?]
        by_cases hd : s' = dst
        · subst hd
          by_cases hv : vpn = v
          · -- no later row has the key, so this one has the last word
            subst hv
            have hlast : findRow? ⟨s, vpn⟩ rest = none := findRow?_eq_none.2 hfresh
            simp [hlast]
          · simp [hv]
        · simp [hd, Ne.symm hd]
      · have hne : (⟨s, vpn⟩ : PageRef) ≠ ⟨src, v⟩ := fun he => hs (PageRef.mk.inj he).1
        simp only [List.filterMap_cons, if_neg hs, ih hrest, findRow?, if_neg hne]

theorem find?_copied (regions : Table PageRef Nat) (ref : PageRef) :
    (regions.copied src dst).find? ref =
      if ref.space = dst then (regions.find? ⟨src, ref.vpn⟩).or (regions.find? ref)
      else regions.find? ref :=
  find?_foldl_copied regions.nodup regions ref

end Table

namespace Core

theorem Steps.regions_of {c c' : Core} {before after : List Deed} {regions : Table PageRef Nat}
    (h : Steps c (before ++ .chart regions :: after) c') (last : ∀ t, .chart t ∉ after) :
    c'.regions = regions := by
  have hseen := h.regions_seen (g := ⟨fun _ _ => none, fun _ => #[], c.regions⟩) rfl
  rw [Sight.seeAll_append] at hseen
  rw [← hseen]
  exact Sight.seeAll_regions last

end Core

theorem teardown_regions {order : Traversal} (hs : m.core.Sound)
    (h : teardown s order m = .ok u m') :
    m'.regions = if m.pageNumbers s = [] then m.regions
      else m.regions.filterKeys fun ref => ref.space != s := by
  rcases teardown_parts h with ⟨empty, rfl⟩ | ⟨pages, console, h⟩
  · rw [if_pos empty]
  · have hs₁ := (Step.chart (m.regions.filterKeys fun ref => ref.space != s)).sound hs
    obtain ⟨ds, hsteps, hds, -⟩ := destroyPages_core (by exact hs₁) h
    rw [if_neg pages]
    refine hsteps.regions fun t ht => ?_
    obtain ⟨vpn, -, hdrop⟩ := hds _ ht
    exact nomatch hdrop

theorem Core.CopiesAll.uncharted {c c' : Core} {vpns : List PageNum} {done : Bool} {ds : List Deed}
    (h : CopiesAll src dst c vpns done ds c') : ∀ t, .chart t ∉ ds := by
  have page {c : Core} {a b : PageRef} {done : Bool} {ds : List Deed} (h : c.Copies a b done ds)
      (t : Table PageRef Nat) : .chart t ∉ ds := by
    cases h <;> simp
  induction h with
  | nil => exact nofun
  | next _ copies _ _ ih =>
      intro t ht
      rcases List.mem_append.1 ht with ht | ht
      · exact page copies t ht
      · exact ih t ht
  | stop _ copies => exact page copies

theorem copySpace_regions {order : Traversal} {done : Bool} (hs : m.core.Sound)
    (h : copySpace src dst order m = .ok done m') :
    m'.regions = if done then m.regions.copied src dst else m.regions := by
  obtain ⟨m₁, copied, hrest⟩ := copySpace_parts h
  obtain ⟨ds, hall⟩ := copyPages_core hs copied
  have hkept : m₁.regions = m.regions := hall.steps.regions hall.uncharted
  rcases hrest with ⟨rfl, charted⟩ | ⟨rfl, rfl⟩
  · obtain rfl := modify_ok.1 charted
    rw [if_pos rfl, ← hkept]
    rfl
  · exact hkept

theorem holding_ok {α : Type} {ref : PageRef} {x : KernelM α} {r : α} :
    holding ref x m = .ok r m' ↔
      ∃ m₁, x { m with held := ref :: m.held } = .ok r m₁ ∧ { m₁ with held := m.held } = m' := by
  constructor
  · intro h
    replace h := bind_get_ok.1 h
    obtain ⟨_, _, h₂, h⟩ := bind_ok.1 h
    obtain rfl := modify_ok.1 h₂
    obtain ⟨r', m₁, h₃, h⟩ := bind_ok.1 h
    obtain ⟨_, _, h₄, h⟩ := bind_ok.1 h
    obtain rfl := modify_ok.1 h₄
    obtain ⟨rfl, rfl⟩ := pure_ok.1 h
    exact ⟨m₁, h₃, rfl⟩
  · rintro ⟨m₁, h, rfl⟩
    refine bind_ok.2 ⟨m, m, rfl, bind_ok.2 ⟨⟨⟩, _, rfl, bind_ok.2 ⟨r, m₁, h, ?_⟩⟩⟩
    exact bind_ok.2 ⟨⟨⟩, _, rfl, rfl⟩

namespace Operation

/-- What is asked for while somebody holds the locks of pages. -/
def bare : Operation → Operation
  | locked _ _ op => op.bare
  | op => op

theorem locked_perform (h : (locked s va op).perform m = .ok a m') :
    (a = .absent ∧ m' = m) ∨ ∃ (m₁ m₂ : Machine) (held : List PageRef), Steps m.core [] m₁.core ∧
      op.perform { m₁ with held } = .ok a m₂ ∧ m' = { m₂ with held := m₁.held } := by
  obtain ⟨found, m₁, h₁, h⟩ := bind_ok.1 h
  rcases find_ok h₁ with ⟨rfl, -, rfl⟩ | ⟨_, _, -, rfl, -⟩
  · obtain ⟨rfl, rfl⟩ := pure_ok.1 h
    exact .inl ⟨rfl, rfl⟩
  · obtain ⟨m₂, h₂, rfl⟩ := holding_ok.1 h
    exact .inr ⟨m₁, m₂, _, (find_core h₁).1, h₂, rfl⟩

/-- How the core comes to be what it is when a request was answered. Others may change entries of page
tables, files, and what page tables grant. -/
inductive Comes (c c' : Core) (op : Operation) (a : Answer) : Prop where
  | absent (absent : a = .absent) (run : Steps c [] c')
  | ran {c₁ : Core} {ds : List Deed} (first : Steps c [] c₁) (run : Steps c₁ ds c')
      (does : Does c₁ c' op a ds)
  | tampered {c₁ : Core} {mappings : Table PageRef Mapping} {files : FileId → FileFace}
      {grants : SpaceId → Nat → Bool} (irregular : ¬ op.Regular) (first : Steps c [] c₁)
      (core : c' = { c₁ with mappings, files, grants })

theorem Comes.after {c c₁ c' : Core} (first : Steps c [] c₁) (h : Comes c₁ c' op a) :
    Comes c c' op a := by
  cases h with
  | absent absent run => exact .absent absent (first.trans run)
  | ran first' run does => exact .ran (first.trans first') run does
  | tampered irregular first' core => exact .tampered irregular (first.trans first') core

theorem perform_comes (hs : m.core.Sound) (h : op.perform m = .ok a m') :
    op.bare.Comes m.core m'.core a := by
  induction op generalizing m m' with
  | locked s va op ih =>
      rcases locked_perform h with ⟨rfl, rfl⟩ | ⟨m₁, m₂, held, first, answered, rfl⟩
      · exact .absent rfl (.refl _)
      · exact (ih (m := { m₁ with held }) (first.sound hs) answered).after first
  | setDirty | dropMapping | setInstalls | configureFile =>
      obtain ⟨mappings, files, grants, hm', -⟩ := irregular_core h id nofun
      exact .tampered id (.refl _) hm'
  | _ =>
      have hcomes := fun regular => perform_core regular hs h
      obtain ⟨ds, run, does⟩ := hcomes trivial
      exact .ran (.refl _) run does

def regionsAfter (m : Machine) : Operation → Answer → Table PageRef Nat
  | map s va length _ _ _, .mapped (.ok _) =>
      m.regions.insert ⟨s, va.vpnFloor⟩ ((length + (pageSize - 1)) / pageSize)
  | unmap s va, .accepted (.ok _) => m.regions.erase ⟨s, va.vpnFloor⟩
  | fork src dst _, .flag true => m.regions.copied src dst
  | teardown s _, .size _ | exit s _, .flag _ =>
      if m.pageNumbers s = [] then m.regions else m.regions.filterKeys fun ref => ref.space != s
  | _, _ => m.regions

theorem regionsAfter_absent (m : Machine) (op : Operation) : op.regionsAfter m .absent = m.regions := by
  cases op <;> rfl

theorem regionsAfter_congr (regions : m₁.regions = m.regions)
    (vacant : ∀ s, m₁.pageNumbers s = [] ↔ m.pageNumbers s = []) (op : Operation) (a : Answer) :
    op.regionsAfter m₁ a = op.regionsAfter m a := by
  fun_cases regionsAfter m op a <;> simp_all [regionsAfter]

end Operation

theorem Machine.pageNumbers_eq_nil :
    m.pageNumbers s = [] ↔ ∀ vpn, m.core.pages.find? ⟨s, vpn⟩ = none := by
  rw [List.eq_nil_iff_forall_not_mem]
  simp only [mem_pageNumbers, not_not]

theorem Core.Steps.pageNumbers_nil (hs : m.core.Sound) (run : Steps m.core [] m₁.core) (s : SpaceId) :
    m₁.pageNumbers s = [] ↔ m.pageNumbers s = [] := by
  simp only [Machine.pageNumbers_eq_nil, ← flat_eq_none, run.flat hs nofun]
  rfl

namespace Operation

theorem Comes.regions {c c' : Core} (comes : Comes c c' op a) (plain : ¬ op.Charts) :
    c'.regions = c.regions := by
  cases comes with
  | absent _ run => exact run.regions nofun
  | ran first run does => exact (run.regions (does.uncharted plain)).trans (first.regions nofun)
  | tampered _ first core => exact core ▸ first.regions nofun

theorem Comes.mapped_fits {c c' : Core} {length : Nat} {writable : Bool} {file : FileId}
    {offset : Nat} {va' : VirtAddr}
    (comes : Comes c c' (map s va length writable file offset) (.mapped (.ok va'))) :
    0 < (length + (pageSize - 1)) / pageSize ∧
      (va.vpnFloor.val + (length + (pageSize - 1)) / pageSize) * pageSize ≤ userSpaceEnd := by
  have fits {pages : Nat} {r : MapRequest} (valid : r.Valid pages) :
      0 < pages ∧ (r.start.val + pages) * pageSize ≤ userSpaceEnd := by
    obtain ⟨hcount, hpositive, huser⟩ := valid
    simp only [pageSize, userSpaceEnd] at *
    omega
  cases comes with
  | absent absent => exact nomatch absent
  | ran _ _ does =>
      cases does with
      | looked looks => exact looks.elim
      | mapped serves =>
          cases serves with
          | mapped valid =>
              have hfits := fits valid
              rwa [valid.count] at hfits
  | tampered irregular => exact (irregular trivial).elim

theorem perform_regions (hs : m.core.Sound) (h : op.perform m = .ok a m') :
    m'.regions = op.bare.regionsAfter m a := by
  induction op generalizing m m' with
  | locked s va op ih =>
      rcases locked_perform h with ⟨rfl, rfl⟩ | ⟨m₁, m₂, held, first, answered, rfl⟩
      · exact (regionsAfter_absent _ _).symm
      · refine (ih (m := { m₁ with held }) (first.sound hs) answered).trans ?_
        have charted : ({ m₁ with held } : Machine).regions = m.regions := first.regions nofun
        exact regionsAfter_congr charted (first.pageNumbers_nil hs) op.bare a
  | map s va length writable id offset =>
      have regular : (map s va length writable id offset).Regular := trivial
      obtain ⟨ds, run, does⟩ := perform_core regular hs h
      cases does with
      | looked looks => exact looks.elim
      | mapped serves =>
          generalize hc : m'.core = c' at serves run
          cases serves with
          | mapped valid _ _ run =>
              have hregions : m'.regions = c'.regions := congrArg Core.regions hc
              rw [hregions, run.regions_of nofun, valid.count]
              rfl
          | refused _ run undone =>
              refine (congrArg Core.regions hc).trans (run.regions fun t ht => ?_)
              rcases List.mem_append.1 ht with ht | ht
              · obtain ⟨j, -, -, hj⟩ := MapRequest.mem_adds.1 ht
                exact nomatch hj
              · obtain ⟨j, -, hj⟩ := undone _ ht
                exact nomatch hj
  | unmap s va =>
      have regular : (unmap s va).Regular := trivial
      obtain ⟨ds, run, does⟩ := perform_core regular hs h
      cases does with
      | looked looks => exact looks.elim
      | unmapped unmaps =>
          generalize hc : m'.core = c' at unmaps run
          cases unmaps with
          | unmapped _ run drops_of =>
              refine (congrArg Core.regions hc).trans ?_
              refine @Steps.regions_of _ _ [] _ _ run fun t ht => ?_
              obtain ⟨j, -, hj⟩ := drops_of _ ht
              exact nomatch hj
          | refused same => exact congrArg Core.regions (hc.trans same)
  | fork src dst order =>
      obtain ⟨done, h₁, rfl⟩ := bind_pure_ok.1 h
      rw [copySpace_regions hs h₁]
      cases done <;> rfl
  | teardown s order =>
      obtain ⟨_, m₁, h₁, h⟩ := bind_ok.1 h
      replace h := bind_get_ok.1 h
      obtain ⟨rfl, rfl⟩ := pure_ok.1 h
      exact teardown_regions hs h₁
  | exit s order =>
      obtain ⟨_, h₁, rfl⟩ := bind_pure_ok.1 h
      obtain ⟨_, m₂, h₂, h₁⟩ := bind_ok.1 h₁
      have hregions := teardown_regions hs h₂
      rw [← modify_ok.1 h₁]
      exact hregions
  | _ => exact (perform_comes hs h).regions id

inductive Records (m : Machine) (ref : PageRef) (count : Nat) : Operation → Answer → Prop where
  | kept {op : Operation} {a : Answer} (found : m.regions.find? ref = some count) :
      Records m ref count op a
  | mapped {va va' : VirtAddr} {length : Nat} {writable : Bool} {file : FileId} {offset : Nat}
      (start : va.vpnFloor = ref.vpn) (pages : (length + (pageSize - 1)) / pageSize = count) :
      Records m ref count (map ref.space va length writable file offset) (.mapped (.ok va'))
  | copied {src : SpaceId} {order : Traversal} (found : m.regions.find? ⟨src, ref.vpn⟩ = some count) :
      Records m ref count (fork src ref.space order) (.flag true)

theorem find?_keepOthers (regions : Table PageRef Nat) (s : SpaceId) (ref : PageRef) :
    (regions.filterKeys fun ref => ref.space != s).find? ref =
      if ref.space = s then none else regions.find? ref := by
  rw [Table.find?_filterKeys]
  by_cases h : ref.space = s <;> simp [h]

theorem records {ref : PageRef} {count : Nat} (found : (op.regionsAfter m a).find? ref = some count) :
    Records m ref count op a := by
  have others {s : SpaceId} {op : Operation} {a : Answer}
      (found : (if m.pageNumbers s = [] then m.regions
        else m.regions.filterKeys fun ref => ref.space != s).find? ref = some count) :
      Records m ref count op a := by
    split at found
    · exact .kept found
    · rw [find?_keepOthers] at found
      split at found
      · cases found
      · exact .kept found
  unfold regionsAfter at found
  split at found
  · rcases Table.find?_insert_eq_some.1 found with ⟨rfl, rfl⟩ | ⟨-, found⟩
    · exact .mapped rfl rfl
    · exact .kept found
  · exact .kept (Table.find?_erase_eq_some.1 found).2
  · rw [Table.find?_copied] at found
    split at found
    · next he =>
        rcases Option.or_eq_some_iff.1 found with found | ⟨-, found⟩
        · exact he ▸ .copied found
        · exact .kept found
    · exact .kept found
  · exact others found
  · exact others found
  · exact .kept found

def Grounds (s : SpaceId) (start : PageNum) : Operation → Answer → Prop
  | map s' va _ _ _ _, .mapped (.ok _) => s' = s ∧ va.vpnFloor = start
  | fork _ dst _, .flag true => dst = s
  | _, _ => False

theorem Records.kept_of {ref : PageRef} {count : Nat} (h : Records m ref count op a)
    (groundless : ¬ op.Grounds ref.space ref.vpn a) : m.regions.find? ref = some count := by
  cases h with
  | kept found => exact found
  | mapped start => exact (groundless ⟨rfl, start⟩).elim
  | copied => exact (groundless rfl).elim

end Operation

namespace Machine

/-- Requests that were served one after the other, the first of them first, whoever held which locks
meanwhile; and the machine then. -/
inductive Serves (m : Machine) : List Exchange → Machine → Prop where
  | nil : Serves m [] m
  | next {m₁ m' : Machine} {log : List Exchange} {op : Operation} {a : Answer} (held : List PageRef)
      (run : Serves m log m₁) (answered : op.perform { m₁ with held } = .ok a m') :
      Serves m (log ++ [(op, a)]) m'

theorem Serves.reaches {log : List Exchange} (run : m.Serves log m') : m.Reaches m' := by
  induction run with
  | nil => exact .refl
  | next held _ answered ih => exact .served held ih answered

theorem Reaches.keep {P : Machine → Prop} {n : Nat} {loan : HandleCount}
    (step : ∀ {m m' : Machine} {op : Operation} {a : Answer}, m.Tidy n loan → P m →
      op.perform m = .ok a m' → P m')
    (unheld : ∀ {m : Machine} (held : List PageRef), P m → P { m with held }) (run : m.Reaches m')
    (tidy : m.Tidy n loan) (h : P m) : P m' := by
  induction run with
  | refl => exact h
  | @served m₁ m' op a held run answered ih =>
      exact step (m := { m₁ with held }) ((run.tidy tidy).same rfl rfl) (unheld held ih) answered

theorem Reaches.keepCore {P : Core → Prop} {n : Nat} {loan : HandleCount}
    (step : ∀ {c c' : Core} {ds : List Deed}, Step c ds c' → P c → P c')
    (tampered : ∀ {c : Core} (mappings : Table PageRef Mapping) (files : FileId → FileFace)
      (grants : SpaceId → Nat → Bool), P c → P { c with mappings, files, grants })
    (run : m.Reaches m') (tidy : m.Tidy n loan) (h : P m.core) : P m'.core := by
  refine run.keep (P := fun m => P m.core) (fun {m m' op a} tidy h answered => ?_) (fun _ h => h)
    tidy h
  cases op.perform_comes tidy.sound answered with
  | absent _ run => exact run.keep step h
  | ran first run => exact run.keep step (first.keep step h)
  | tampered _ first core =>
      rw [core]
      exact tampered _ _ _ (first.keep step h)

theorem Passes.keepCore {P : Core → Prop} {n : Nat} {loan : HandleCount}
    (step : ∀ {c c' : Core} {ds : List Deed}, Step c ds c' → P c → P c')
    (tampered : ∀ {c : Core} (mappings : Table PageRef Mapping) (files : FileId → FileFace)
      (grants : SpaceId → Nat → Bool), P c → P { c with mappings, files, grants })
    (passes : m.Passes m') (tidy : m.Tidy n loan) (h : P m.core) : P m'.core := by
  obtain ⟨m₁, ds, run, steps⟩ := passes
  exact steps.keep step (run.keepCore step tampered tidy h)

def Regional (m : Machine) : Prop :=
  ∀ ref count, m.regions.find? ref = some count → 0 < count ∧
    (ref.vpn.val + count) * pageSize ≤ userSpaceEnd

theorem Regional.performed (h : m.Regional) (hs : m.core.Sound)
    (answered : op.perform m = .ok a m') : m'.Regional := by
  have comes := Operation.perform_comes hs answered
  intro ref count found
  rw [Operation.perform_regions hs answered] at found
  have records := Operation.records found
  clear found
  generalize op.bare = op at comes records
  cases records with
  | kept found => exact h ref count found
  | mapped start pages =>
      have hfits := comes.mapped_fits
      rwa [start, pages] at hfits
  | @copied src _ found => exact h ⟨src, ref.vpn⟩ count found

theorem Reaches.regional {n : Nat} {loan : HandleCount} (run : m.Reaches m') (tidy : m.Tidy n loan)
    (h : m.Regional) : m'.Regional :=
  run.keep (fun tidy h answered => h.performed tidy.sound answered) (fun _ h => h) tidy h

theorem fresh_regional (frames : Nat) (sectors : Option Nat) (files : List File)
    (allocator : Allocator := .buddy) :
    (fresh frames sectors files allocator).Regional := nofun

theorem Serves.unrecorded {n : Nat} {loan : HandleCount} {log : List Exchange} {start : PageNum}
    (run : m.Serves log m') (tidy : m.Tidy n loan) (absent : m.regions.find? ⟨s, start⟩ = none)
    (groundless : ∀ e ∈ log, ¬ e.1.bare.Grounds s start e.2) : m'.regions.find? ⟨s, start⟩ = none := by
  induction run with
  | nil => exact absent
  | @next m₁ m' log op a held run answered ih =>
      have hbefore := ih fun e he => groundless e (List.mem_append_left _ he)
      have hlast := groundless (op, a) (List.mem_append_right _ List.mem_cons_self)
      have hs := (run.reaches.tidy tidy).sound
      cases found : m'.regions.find? ⟨s, start⟩ with
      | none => rfl
      | some count =>
          rw [Operation.perform_regions (m := { m₁ with held }) hs answered] at found
          have hkept := (Operation.records found).kept_of hlast
          exact nomatch hbefore.symm.trans hkept

end Machine

end DemandPaging
