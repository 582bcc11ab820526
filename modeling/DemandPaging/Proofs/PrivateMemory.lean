import DemandPaging.Proofs.Histories
import DemandPaging.Proofs.Runs

/-!
The memory that users see. Frames, swap slots, shared frames and victims do not show: what the pager
does is what a machine does in which every space has pages of its own.
-/

namespace DemandPaging

open DemandPaging.Core

variable {m m' : Machine} {s src dst : SpaceId} {log new : List Exchange}

namespace Deed

def Maps (s : SpaceId) : Deed → Prop
  | add ref page => ref.space = s ∧ ∃ backing, page.kind = .uninit (.file backing) none
  | chart _ => True
  | _ => False

def Drops (s : SpaceId) : Deed → Prop
  | drop ref => ref.space = s
  | chart _ => True
  | _ => False

def Copies (src dst : SpaceId) : Deed → Prop
  | share x y _ => x.space = src ∧ y = ⟨dst, x.vpn⟩
  | add ref _ => ref.space = dst
  | chart _ => True
  | _ => False

theorem Clears.drops {regions : Table PageRef Nat} {d : Deed} (h : d.Clears regions s) :
    d.Drops s := by
  rcases h with ⟨vpn, rfl⟩ | rfl
  · rfl
  · trivial

theorem Drops.apart {d : Deed} {ref : PageRef} (h : d.Drops s) (hr : ref.space ≠ s) :
    d.target ≠ some ref := by
  cases d with
  | drop r =>
      intro he
      cases Option.some.inj he
      exact hr h
  | chart => exact nofun
  | _ => exact h.elim

theorem Copies.apart {d : Deed} {ref : PageRef} (h : d.Copies src dst) (hr : ref.space ≠ dst) :
    d.target ≠ some ref := by
  cases d with
  | add r =>
      intro he
      cases Option.some.inj he
      exact hr h
  | share x y =>
      intro he
      cases Option.some.inj he
      exact hr (congrArg PageRef.space h.2)
  | chart => exact nofun
  | _ => exact h.elim

end Deed

def Operation.Edits : Operation → Prop
  | declare _ _ _ _ _ | insert _ _ _ _ | remove _ _ => True
  | _ => False

namespace Flat

/-- How a memory of private pages serves what comes next in a run. Programs are known by their
numbers at the moments of which `E` tells. -/
inductive Serves (E : Core → Prop) (F : Flat) : List Exchange → List Deed → Prop where
  | looked {op : Operation} {a : Answer} (looks : op.Looks ∨ op.Outside) : Serves E F [(op, a)] []
  | declared {s : SpaceId} {va : VirtAddr} {writable : Bool} {target : TargetRequest}
      {init : Option InitializerRequest} {t : PageTarget} {i : Option Initializer} {c : Core}
      (target_of : target.Names t) (moment : E c)
      (init_of : InitializerRequest.NamesAll c init i) :
      Serves E F [(.declare s va writable target init, .flag true)]
        [.add ⟨s, va.vpnFloor⟩ (.fresh s writable (.uninit t i))]
  | inserted {s : SpaceId} {va : VirtAddr} {writable : Bool} {request : KindRequest}
      {kind : PageKind} {c : Core} (moment : E c) (kind_of : request.Names c kind) :
      Serves E F [(.insert s va writable request, .flag true)]
        [.add ⟨s, va.vpnFloor⟩ (.fresh s writable kind)]
  | turnedAway {op : Operation} (edits : op.Edits) : Serves E F [(op, .flag false)] []
  | claimed {s : SpaceId} {va : VirtAddr} {done : Bool} {ds : List Deed}
      (settles : ∀ d ∈ ds, d.Settles ⟨s, va.vpnFloor⟩) :
      Serves E F [(.claim s va, .flag done)] ds
  | removed {s : SpaceId} {va : VirtAddr} :
      Serves E F [(.remove s va, .flag true)] [.drop ⟨s, va.vpnFloor⟩]
  | mapped {s : SpaceId} {va start : VirtAddr} {length : Nat} {writable : Bool} {id : FileId}
      {offset : Nat} {ds : List Deed} (maps : ∀ d ∈ ds, d.Maps s) :
      Serves E F [(.map s va length writable id offset, .mapped (.ok start))] ds
  | notMapped {s : SpaceId} {va : VirtAddr} {length : Nat} {writable : Bool} {id : FileId}
      {offset : Nat} {e : Errno} {ds : List Deed} (undone : ∀ d ∈ ds, d.Maps s ∨ d.Drops s)
      (same : Deed.applyAll F ds = F) :
      Serves E F [(.map s va length writable id offset, .mapped (.error e))] ds
  | unmapped {s : SpaceId} {va : VirtAddr} {ds : List Deed} (drops : ∀ d ∈ ds, d.Drops s) :
      Serves E F [(.unmap s va, .accepted (.ok ()))] ds
  | notUnmapped {s : SpaceId} {va : VirtAddr} {e : Errno} :
      Serves E F [(.unmap s va, .accepted (.error e))] []
  | faulted {s : SpaceId} {va sp : VirtAddr} {flags : FaultFlags} {done : Bool} {ds : List Deed}
      (faults : ∀ d ∈ ds, d.Faults ⟨s, va.vpnFloor⟩) :
      Serves E F [(.fault s va sp flags, .flag done)] ds
  | read {s : SpaceId} {va sp : VirtAddr} {length : Nat} {result : Option (Array UInt8)}
      {ds : List Deed} {shown : List UInt8} (reads : ∀ d ∈ ds, d.Reads s (va.Spans length))
      (loads : Deed.allLoads ds = ByteAt.along s va shown)
      (got : ∀ bytes, result = some bytes → bytes.toList = shown ∧ bytes.size = length) :
      Serves E F [(.read s va length sp, .bytes result)] ds
  | wrote {s : SpaceId} {va sp : VirtAddr} {bytes : Array UInt8} {done : Bool}
      {ds : List Deed} {taken : List UInt8} (writes : ∀ d ∈ ds, d.Writes s (va.Spans bytes.size))
      (stores : Deed.allStores ds = ByteAt.along s va taken) (some_of : taken <+: bytes.toList)
      (all_of : done = true → taken = bytes.toList) :
      Serves E F [(.write s va bytes sp, .flag done)] ds
  | forked {src dst : SpaceId} {order : Traversal} {ds : List Deed}
      (copies : ∀ d ∈ ds, d.Copies src dst)
      (copied : ∀ r, Deed.applyAll F ds r =
        if r.space = dst then (F ⟨src, r.vpn⟩).or (F r) else F r) :
      Serves E F [(.fork src dst order, .flag true)] ds
  | notForked {src dst : SpaceId} {order order' : Traversal} {n : Nat} {ds : List Deed}
      (undone : ∀ d ∈ ds, d.Copies src dst ∨ d.Drops dst)
      (cleared : ∀ r, Deed.applyAll F ds r = if r.space = dst then none else F r) :
      Serves E F [(.fork src dst order, .flag false), (.teardown dst order', .size n)] ds
  | cleared {op : Operation} {a : Answer} {s : SpaceId} {order : Traversal} {ds : List Deed}
      (clears : op = .teardown s order ∨ op = .exit s order) (drops : ∀ d ∈ ds, d.Drops s)
      (cleared : ∀ r, Deed.applyAll F ds r = if r.space = s then none else F r) :
      Serves E F [(op, a)] ds

end Flat

inductive Recorded (m : Machine) : List Exchange → List Deed → Machine → Prop where
  | start : Recorded m [] [] m
  | turn {m₁ m' : Machine} {log new : List Exchange} {past ds : List Deed}
      (before : Recorded m log past m₁) (turn : Turn m₁ new m')
      (lawful : (Deed.applyAll (fun _ => none) past).Lawful (Between m₁.core m'.core) ds)
      (serves : Flat.Serves (Between m₁.core m'.core) (Deed.applyAll (fun _ => none) past) new ds) :
      Recorded m (log ++ new) (past ++ ds) m'

theorem Core.Copies.flat {c : Core} {x y : PageRef} {ds : List Deed} (h : c.Copies x y true ds)
    (r : PageRef) :
    Deed.applyAll c.flat ds r = if r = y then (c.flat x).or (c.flat r) else c.flat r := by
  have put (cell : Option Cell) : Function.update c.flat y cell r = if r = y then cell else c.flat r :=
    Function.update_apply _ _ _ _
  cases h with
  | absent absent =>
      rw [flat_vacant absent, Option.none_or, ite_self]
      rfl
  | @unused page found unused vacant =>
      have hcell : c.cell page = page.kind.freshCell := by
        unfold cell
        cases hk : page.kind with
        | uninit target => cases target <;> rfl
        | _ => rw [hk] at unused; exact nomatch unused
      rw [flat_found found, Option.some_or, hcell]
      exact put _
  | shared found used vacant =>
      rw [flat_found found, Option.some_or, ← flat_found found]
      exact put _

theorem Core.Copies.deeds {c : Core} {vpn : PageNum} {done : Bool} {ds : List Deed}
    (h : c.Copies ⟨src, vpn⟩ ⟨dst, vpn⟩ done ds) : ∀ d ∈ ds, d.Copies src dst := by
  intro d hd
  cases h with
  | absent | failed => exact nomatch hd
  | unused =>
      rw [List.mem_singleton.1 hd]
      rfl
  | shared | half =>
      rw [List.mem_singleton.1 hd]
      exact ⟨rfl, rfl⟩

namespace Core.CopiesAll

variable {c c' : Core} {vpns : List PageNum} {done : Bool} {ds : List Deed}

theorem deeds (h : CopiesAll src dst c vpns done ds c') : ∀ d ∈ ds, d.Copies src dst := by
  induction h with
  | nil => exact nofun
  | next first copies _ _ ih =>
      intro d hd
      rcases List.mem_append.1 hd with hd | hd
      · exact copies.deeds d hd
      · exact ih d hd
  | stop first copies => exact copies.deeds

theorem flat (hne : src ≠ dst) (hs : c.Sound) (h : CopiesAll src dst c vpns done ds c')
    (hdone : done = true) (r : PageRef) : Deed.applyAll c.flat ds r =
      if r.space = dst ∧ r.vpn ∈ vpns then (c.flat ⟨src, r.vpn⟩).or (c.flat r) else c.flat r := by
  induction h with
  | nil => rw [if_neg fun hall => List.not_mem_nil hall.2]; rfl
  | @next c c₁ _ vpn vpns _ ds es first copies _ _ ih =>
      have hflat : c₁.flat = Deed.applyAll c.flat ds := by
        refine first.flat hs fun ⟨d, hd, hw⟩ => ?_
        have hcopies := copies.deeds d hd
        cases d with
        | write => exact hcopies.elim
        | _ => exact hw.elim
      have hsrc : c₁.flat ⟨src, r.vpn⟩ = c.flat ⟨src, r.vpn⟩ := by
        rw [hflat]
        exact Deed.applyAll_apart fun d hd => (copies.deeds d hd).apart hne
      rw [Deed.applyAll_append, ← hflat, ih (first.sound hs) hdone, hsrc, hflat, copies.flat]
      by_cases hr : r = ⟨dst, vpn⟩
      · subst hr
        simp only [List.mem_cons, true_or, and_self, if_true, true_and]
        split
        · rw [← Option.or_assoc, Option.or_self]
        · rfl
      · have hcons : (r.space = dst ∧ r.vpn ∈ vpn :: vpns) ↔ (r.space = dst ∧ r.vpn ∈ vpns) := by
          refine and_congr_right fun hspace => ?_
          have hvpn : r.vpn ≠ vpn := fun hv => hr (by rw [← hspace, ← hv])
          rw [List.mem_cons, or_iff_right hvpn]
        simp only [hcons, if_neg hr]
  | stop => exact nomatch hdone

end Core.CopiesAll

namespace Operation.Does

variable {c c' : Core} {op : Operation} {a : Answer} {ds : List Deed}

theorem cleared {regions : Table PageRef Nat} (hflat : c'.flat = Deed.applyAll c.flat ds)
    (clears : ∀ d ∈ ds, d.Clears regions s) (gone : ∀ vpn, c'.pages.find? ⟨s, vpn⟩ = none)
    (r : PageRef) : Deed.applyAll c.flat ds r = if r.space = s then none else c.flat r := by
  split
  · next hr =>
      have hgone := gone r.vpn
      rw [← hr] at hgone
      rw [← hflat, flat_vacant hgone]
  · next hr => exact Deed.applyAll_apart fun d hd => (clears d hd).drops.apart hr

theorem unchanged {r : MapRequest} {n : Nat} {drops : List Deed}
    (vacant : ∀ j < n, c.pages.find? (r.ref j) = none)
    (hflat : c'.flat = Deed.applyAll c.flat (r.adds n 0 ++ drops))
    (undone : ∀ d ∈ drops, ∃ j < n, d = .drop (r.ref j))
    (gone : ∀ j < n, c'.pages.find? (r.ref j) = none) :
    Deed.applyAll c.flat (r.adds n 0 ++ drops) = c.flat := by
  funext x
  by_cases hx : ∃ j < n, x = r.ref j
  · obtain ⟨j, hj, rfl⟩ := hx
    rw [← hflat, flat_vacant (gone j hj), flat_vacant (vacant j hj)]
  · refine Deed.applyAll_apart fun d hd he => hx ?_
    rcases List.mem_append.1 hd with hd | hd
    · obtain ⟨j, -, hj, rfl⟩ := MapRequest.mem_adds.1 hd
      exact ⟨j, by omega, (Option.some.inj he).symm⟩
    · obtain ⟨j, hj, rfl⟩ := undone d hd
      exact ⟨j, hj, (Option.some.inj he).symm⟩

theorem adds_maps {r : MapRequest} {n i : Nat} {d : Deed} (hd : d ∈ r.adds n i) :
    d.Maps r.space := by
  obtain ⟨j, -, -, rfl⟩ := MapRequest.mem_adds.1 hd
  exact ⟨rfl, _, rfl⟩

theorem serves_map {E : Core → Prop} {va : VirtAddr} {length : Nat} {writable : Bool} {id : FileId}
    {offset size : Nat} {result : Except Errno VirtAddr}
    (h : MapRequest.Serves ⟨s, va.vpnFloor, length, writable, id, size, offset⟩ va c c' result ds)
    (hflat : c'.flat = Deed.applyAll c.flat ds) :
    Flat.Serves E c.flat [(.map s va length writable id offset, .mapped result)] ds := by
  cases h with
  | mapped =>
      refine .mapped fun d hd => ?_
      rcases List.mem_append.1 hd with hd | hd
      · exact adds_maps hd
      · rw [List.mem_singleton.1 hd]
        trivial
  | refused vacant _ undone gone =>
      refine .notMapped (fun d hd => ?_) (unchanged vacant hflat undone gone)
      rcases List.mem_append.1 hd with hd | hd
      · exact .inl (adds_maps hd)
      · obtain ⟨j, -, rfl⟩ := undone d hd
        exact .inr rfl

theorem serves_unmap {E : Core → Prop} {va : VirtAddr} {result : Except Errno Unit}
    (h : Core.Unmaps s va.vpnFloor c c' result ds) :
    Flat.Serves E c.flat [(.unmap s va, .accepted result)] ds := by
  cases h with
  | unmapped _ _ drops_of =>
      refine .unmapped fun d hd => ?_
      rcases List.mem_cons.1 hd with rfl | hd
      · trivial
      · obtain ⟨j, -, rfl⟩ := drops_of d hd
        rfl
  | refused => exact .notUnmapped

theorem serves_fork {E : Core → Prop} {src dst : SpaceId} {order : Traversal} {vpns : List PageNum}
    {c₁ : Core} {regions : Table PageRef Nat} (hne : src ≠ dst) (hs : c.Sound)
    (complete : ∀ vpn, c.pages.find? ⟨src, vpn⟩ ≠ none → vpn ∈ vpns)
    (copies : Core.CopiesAll src dst c vpns true ds c₁) :
    Flat.Serves E c.flat [(.fork src dst order, .flag true)] (ds ++ [.chart regions]) := by
  refine .forked (fun d hd => ?_) fun r => ?_
  · rcases List.mem_append.1 hd with hd | hd
    · exact copies.deeds d hd
    · rw [List.mem_singleton.1 hd]
      trivial
  · rw [Deed.applyAll_append]
    refine (copies.flat hne hs rfl r).trans ?_
    by_cases hr : r.space = dst
    · by_cases hv : r.vpn ∈ vpns
      · rw [if_pos ⟨hr, hv⟩, if_pos hr]
      · have hnone : c.flat ⟨src, r.vpn⟩ = none := by
          refine flat_vacant ?_
          by_contra there
          exact hv (complete r.vpn there)
        rw [if_neg fun hall => hv hall.2, if_pos hr, hnone, Option.none_or]
    · rw [if_neg fun hall => hr hall.1, if_neg hr]

theorem serves_undone {E : Core → Prop} {src dst : SpaceId} {order order' : Traversal}
    {vpns : List PageNum} {n : Nat} {c₁ : Core} {es : List Deed} {regions : Table PageRef Nat}
    (copies : Core.CopiesAll src dst c vpns false ds c₁) (clears : ∀ d ∈ es, d.Clears regions dst)
    (gone : ∀ vpn, c'.pages.find? ⟨dst, vpn⟩ = none)
    (hflat : c'.flat = Deed.applyAll c.flat (ds ++ es)) :
    Flat.Serves E c.flat [(.fork src dst order, .flag false), (.teardown dst order', .size n)]
      (ds ++ es) := by
  refine .notForked (fun d hd => ?_) fun r => ?_
  · rcases List.mem_append.1 hd with hd | hd
    · exact .inl (copies.deeds d hd)
    · exact .inr (clears d hd).drops
  · split
    · next hr =>
        have hgone := gone r.vpn
        rw [← hr] at hgone
        rw [← hflat, flat_vacant hgone]
    · next hr =>
        refine Deed.applyAll_apart fun d hd => ?_
        rcases List.mem_append.1 hd with hd | hd
        · exact (copies.deeds d hd).apart hr
        · exact (clears d hd).drops.apart hr

theorem serves (hs : c.Sound) (hop : op.Proper) (whole : op.wrecks a = false)
    (hsteps : Steps c ds c') (hflat : c'.flat = Deed.applyAll c.flat ds)
    (h : Does c c' op a ds) : Flat.Serves (Between c c') c.flat [(op, a)] ds := by
  have moment : Between c c' c' := ⟨ds, [], hsteps, .refl _⟩
  cases h with
  | looked looks => exact .looked (.inl looks)
  | declared target_of init_of => exact .declared target_of moment init_of
  | notDeclared | notInserted | notRemoved => exact .turnedAway trivial
  | inserted kind_of => exact .inserted moment kind_of
  | claimed settles => exact .claimed settles
  | removed => exact .removed
  | mapped serves => exact serves_map serves hflat
  | unmapped unmaps => exact serves_unmap unmaps
  | faulted faults => exact .faulted faults
  | read reads loads got => exact .read reads loads got
  | wrote writes stores some_of all_of => exact .wrote writes stores some_of all_of
  | forked complete copies => exact serves_fork hop hs complete copies
  | notForked => exact nomatch whole
  | tornDown clears gone =>
      exact .cleared (.inl rfl) (fun d hd => (clears d hd).drops) (cleared hflat clears gone)
  | exited clears gone =>
      exact .cleared (.inr rfl) (fun d hd => (clears d hd).drops) (cleared hflat clears gone)

end Operation.Does

def Operation.Granted : Operation → Prop
  | setDirty _ _ _ | dropMapping _ _ | locked _ _ _ | setInstalls _ _ => False
  | fork src dst _ => src ≠ dst
  | _ => True

theorem Operation.Granted.proper {op : Operation} (h : op.Granted) : op.Proper := by
  cases op with
  | setDirty | dropMapping | locked | setInstalls => exact h.elim
  | fork => exact h
  | _ => trivial

/-- A machine whose pages show what a history of deeds says. -/
structure Machine.Tells (m : Machine) (history : List Deed) : Prop extends m.Settled where
  calm : m.core.Calm
  flat_eq : m.core.flat = Deed.applyAll (fun _ => none) history

theorem Machine.Tells.turn {history : List Deed} (h : m.Tells history) (hturn : Turn m new m')
    (all : ∀ e ∈ new, e.1.Granted) : ∃ ds,
      (Deed.applyAll (fun _ => none) history).Lawful (Between m.core m'.core) ds ∧
        Flat.Serves (Between m.core m'.core) (Deed.applyAll (fun _ => none) history) new ds ∧
          m'.Tells (history ++ ds) := by
  obtain ⟨⟨hs, hg⟩, hc, hflat⟩ := h
  have told {m' : Machine} {ds : List Deed} (hsteps : Steps m.core ds m'.core) :
      (Deed.applyAll (fun _ => none) history).Lawful (Between m.core m'.core) ds ∧
        m'.core.flat = Deed.applyAll m.core.flat ds ∧ m'.Tells (history ++ ds) := by
    obtain ⟨hlawful, hflat', hg'⟩ := hsteps.lawful hs hg hc
    rw [hflat] at hlawful
    refine ⟨hlawful, hflat', ⟨hsteps.sound hs, hg'⟩, hsteps.calm hc, ?_⟩
    rw [hflat', hflat, Deed.applyAll_append]
  cases hturn with
  | @served _ op a held whole answered =>
      have hop := all _ List.mem_cons_self
      rcases hop.proper.split with hregular | houtside
      · obtain ⟨ds, hsteps, hdoes⟩ := Operation.perform_held hregular hs answered
        obtain ⟨hlawful, hflat', htells⟩ := told hsteps
        have hserves := hdoes.serves hs hop.proper whole hsteps hflat'
        exact ⟨ds, hlawful, hflat ▸ hserves, htells⟩
      · obtain ⟨files, grants, hm, hsame⟩ := Operation.outside_core houtside answered
        have hgrants : grants = m.core.grants := by
          refine hsame fun s installs he => ?_
          subst he
          exact hop
        subst hgrants
        refine ⟨[], trivial, .looked (.inr houtside), Machine.Settled.outside ⟨hs, hg⟩ hm, ?_, ?_⟩
        · rw [hm]
          exact hc
        · rw [hm, List.append_nil]
          exact hflat
  | @undone m₁ _ src dst order order' a held held' failed cleared =>
      have hfork : (Operation.fork src dst order).Regular := trivial
      obtain ⟨ds, hsteps, hdoes⟩ := Operation.perform_held hfork hs failed
      have hteardown : (Operation.teardown dst order').Regular := trivial
      obtain ⟨es, hsteps', hdoes'⟩ :=
        Operation.perform_held hteardown (hsteps.sound hs) cleared
      obtain ⟨hlawful, hflat', htells⟩ := told (hsteps.trans hsteps')
      refine ⟨ds ++ es, hlawful, hflat ▸ ?_, htells⟩
      cases hdoes with
      | looked looks => exact looks.elim
      | notForked copies =>
          cases hdoes' with
          | looked looks => exact looks.elim
          | tornDown clears gone => exact Operation.Does.serves_undone copies clears gone hflat'

theorem Recorded.lawful {history : List Deed} (h : Recorded m log history m') :
    Flat.Lawful (fun _ => True) (fun _ => none) history := by
  induction h with
  | start => trivial
  | turn _ _ lawful _ ih => exact Flat.lawful_append.2 ⟨ih, lawful.mono fun _ _ => trivial⟩

/-- Every run in which page tables refuse nothing has a history: each turn serves its requests with
deeds of a memory of private pages, the pages show what the history says, and every byte that was
read of an anonymous page is the last value that it was given. -/
theorem anonymous_memory_private {frames : Nat} {sectors : Option Nat} {files : List File}
    {allocator : Allocator}
    (run : Run (fun _ => Operation.Granted) (.fresh frames sectors files allocator) log m) :
    ∃ history, Recorded (.fresh frames sectors files allocator) log history m ∧
      m.core.flat = Deed.applyAll (fun _ => none) history ∧
      ∀ before d after, history = before ++ d :: after → ∀ x ∈ d.loads,
        Deed.applyAll (fun _ => none) before x.ref = some .file ∨
          Deed.lastValue before.reverse x.ref x.offset = some x.byte := by
  have recorded : ∃ history, Recorded (.fresh frames sectors files allocator) log history m ∧
      m.Tells history := by
    induction run with
    | nil =>
        refine ⟨[], .start, Machine.fresh_settled frames sectors files allocator, fun s k => rfl, ?_⟩
        funext ref
        rfl
    | turn run turn all ih =>
        obtain ⟨history, hrecorded, htells⟩ := ih
        obtain ⟨ds, hlawful, hserves, htells'⟩ := htells.turn turn all
        exact ⟨_, hrecorded.turn turn hlawful hserves, htells'⟩
  obtain ⟨history, hrecorded, htells⟩ := recorded
  refine ⟨history, hrecorded, htells.flat_eq, fun before d after heq x hx => ?_⟩
  have hlawful := hrecorded.lawful
  rw [heq] at hlawful
  exact Flat.loads_lastValue hlawful hx

/-- The copy of a page reads as the page was when it was copied, after the page was written to and
the copy was out in the swap area. -/
theorem anonymous_memory_private_after_swap : ∃ log history m,
    Run (fun _ => Operation.Granted) (.fresh 2 (some 16) []) log m ∧
      Recorded (.fresh 2 (some 16) []) log history m ∧
      log.any (fun e => match e.2 with | .bytes got => got == some #[1, 2] | _ => false) = true ∧
      ∀ before d after, history = before ++ d :: after → ∀ x ∈ d.loads,
        Deed.applyAll (fun _ => none) before x.ref = some .file ∨
          Deed.lastValue before.reverse x.ref x.offset = some x.byte := by
  have played : ((Machine.fresh 2 (some 16) []).serve [.declare 0 (.ofBits 4096) true .anon none,
      .write 0 (.ofBits 4096) #[1, 2] (.ofBits 0), .fork 0 1 .asStored,
      .write 0 (.ofBits 4096) #[3] (.ofBits 0), .declare 1 (.ofBits 8192) true .anon none,
      .read 1 (.ofBits 8192) 1 (.ofBits 0), .read 1 (.ofBits 4096) 2 (.ofBits 0)]).any
        (fun r => r.1.any fun e => match e.2 with | .bytes got => got == some #[1, 2] | _ => false)
          = true := by decide +kernel
  obtain ⟨⟨log, m⟩, hserved, hread⟩ := (Option.any_eq_true _ _).1 played
  have run : Run (fun _ => Operation.Granted) _ _ m :=
    .serve .nil (by simp [Operation.Granted]) hserved
  obtain ⟨history, recorded, -, hloads⟩ := anonymous_memory_private run
  exact ⟨_, history, m, run, recorded, hread, hloads⟩

end DemandPaging
