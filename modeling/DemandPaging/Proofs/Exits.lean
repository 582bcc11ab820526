import DemandPaging.Proofs.Debts
import DemandPaging.Proofs.Statistics

/-!
The end of all spaces. When every space that has pages was torn down, nothing is left of any page,
and what the files hold then does not depend on the order in which it was done.
-/

namespace DemandPaging

open DemandPaging.Core

def Operation.closes : Operation → Option SpaceId
  | teardown s _ | exit s _ => some s
  | _ => none

namespace Machine

/-- The requests do nothing but tear spaces down, and leave out no space that has pages. -/
structure Ending (m : Machine) (ops : List Operation) : Prop where
  only : ∀ op ∈ ops, op.closes ≠ none
  all : ∀ ref ∈ m.pages.keys, ∃ op ∈ ops, op.closes = some ref.space

instance (m : Machine) (ops : List Operation) : Decidable (m.Ending ops) :=
  decidable_of_iff ((∀ op ∈ ops, op.closes ≠ none) ∧
      ∀ ref ∈ m.pages.keys, ∃ op ∈ ops, op.closes = some ref.space)
    ⟨fun h => ⟨h.1, h.2⟩, fun h => ⟨h.1, h.2⟩⟩

def dirtyRange? (m : Machine) (ref : PageRef) : Option FileBacking := do
  let page ← m.pages.find? ref
  let mapping ← m.mappings.find? ref
  match page.kind with
  | .file backing => if mapping.dirty then some backing else none
  | _ => none

def DirtyPairs (m : Machine) (R : FileBacking → FileBacking → Prop) : Prop :=
  ∀ ref ∈ m.pages.keys, ∀ ref' ∈ m.pages.keys, ref ≠ ref' →
    ∀ a ∈ m.dirtyRange? ref, ∀ b ∈ m.dirtyRange? ref', R a b

def DirtyApart (m : Machine) : Prop := m.DirtyPairs FileBacking.Apart

/-- How much of a write a file with several dirty pages takes does not depend on the writes before
it. -/
def DirtySteady (m : Machine) : Prop :=
  m.DirtyPairs fun a b => a.file = b.file → (m.file a.file).Steady

instance (m : Machine) : Decidable m.DirtyApart :=
  inferInstanceAs (Decidable (∀ ref ∈ m.pages.keys, ∀ ref' ∈ m.pages.keys, ref ≠ ref' →
    ∀ a ∈ m.dirtyRange? ref, ∀ b ∈ m.dirtyRange? ref', a.Apart b))

/-- Nothing is left of any page, and memory and open files are as they were before. -/
structure Returned (n : Nat) (m before : Machine) : Prop where
  pages : m.pages.keys = []
  resident : m.stats.residentFrames = 0
  shared : m.stats.sharedFrames = 0
  swapped : m.stats.swapUsed = 0
  memory : m.memory.pool.handsOut.Perm (List.range n)
  entries : ∀ ref, m.mappings.find? ref = none
  handles : ∀ id, (m.file id).handles = (before.file id).handles

/-- The pages of some spaces are given up, each of them once. -/
def GivesUp (m m' : Machine) (gone : SpaceId → Prop) : Prop :=
  ∃ refs : List PageRef, refs.Nodup ∧
    (∀ ref, ref ∈ refs ↔ gone ref.space ∧ m.ledger.looks ref ≠ none) ∧
      m'.ledger = refs.foldl Ledger.settle m.ledger

end Machine

variable {n : Nat} {loan : HandleCount} {m m' m₁ : Machine} {s : SpaceId} {ref : PageRef}
  {gone gone' : SpaceId → Prop} {ops ops' : List Operation} {op : Operation} {u : Unit}
  {order : Traversal}

namespace Machine

theorem ledger_looks : m.ledger.looks ref ≠ none ↔ ref ∈ m.pages.keys := by
  have hmap : (m.ledger.looks ref).isSome = (m.pages.find? ref).isSome := Option.isSome_map
  rw [Table.mem_keys, ← hmap, Option.isSome_iff_ne_none]

namespace GivesUp

theorem looks (h : m.GivesUp m' gone) :
    m'.ledger.looks ref ≠ none ↔ ¬ gone ref.space ∧ m.ledger.looks ref ≠ none := by
  obtain ⟨refs, -, mem, heq⟩ := h
  rw [heq, Ledger.foldl_settle_looks]
  by_cases hin : ref ∈ refs
  · rw [if_pos hin]
    exact ⟨fun h => (h rfl).elim, fun h => (h.1 ((mem ref).1 hin).1).elim⟩
  · rw [if_neg hin]
    exact ⟨fun h => ⟨fun hgone => hin ((mem ref).2 ⟨hgone, h⟩), h⟩, fun h => h.2⟩

theorem trans (h : m.GivesUp m₁ gone) (h' : m₁.GivesUp m' gone') :
    m.GivesUp m' fun s => gone s ∨ gone' s := by
  have hlooks (ref : PageRef) : m₁.ledger.looks ref ≠ none ↔
      ¬ gone ref.space ∧ m.ledger.looks ref ≠ none := h.looks
  obtain ⟨refs, nodup, mem, heq⟩ := h
  obtain ⟨refs', nodup', mem', heq'⟩ := h'
  -- a page that was given up is not there any more, so it is not given up again
  have apart : refs.Disjoint refs' := fun ref hin hin' =>
    ((hlooks ref).1 ((mem' ref).1 hin').2).1 ((mem ref).1 hin).1
  refine ⟨refs ++ refs', List.nodup_append'.2 ⟨nodup, nodup', apart⟩, fun ref => ?_, ?_⟩
  · rw [List.mem_append, mem, mem', hlooks]
    tauto
  · rw [heq', heq, List.foldl_append]

theorem none (m : Machine) : m.GivesUp m fun _ => False :=
  ⟨[], List.nodup_nil, fun _ => ⟨nofun, fun h => h.1.elim⟩, rfl⟩

theorem of_iff (h : m.GivesUp m' gone)
    (hgone : ∀ ref ∈ m.pages.keys, gone ref.space ↔ gone' ref.space) : m.GivesUp m' gone' := by
  obtain ⟨refs, nodup, mem, heq⟩ := h
  refine ⟨refs, nodup, fun ref => (mem ref).trans (and_congr_left fun hlook => ?_), heq⟩
  exact hgone ref (ledger_looks.1 hlook)

theorem stored_eq (h : m.GivesUp m₁ gone) (h' : m.GivesUp m' gone)
    (fair : m.ledger.Fair) : m₁.stored = m'.stored := by
  obtain ⟨refs, nodup, mem, heq⟩ := h
  obtain ⟨refs', nodup', mem', heq'⟩ := h'
  have perm : refs.Perm refs' :=
    (List.perm_ext_iff_of_nodup nodup nodup').2 fun ref => (mem ref).trans (mem' ref).symm
  have hledger : m₁.ledger = m'.ledger := by rw [heq, heq', fair.settle_perm perm]
  exact congrArg Ledger.files hledger

end GivesUp

theorem pageNumbers_nodup (m : Machine) (s : SpaceId) : (m.pageNumbers s).Nodup := by
  refine m.pages.nodup_keys.filterMap fun ref ref' vpn h h' => ?_
  simp only [Option.mem_def, Option.ite_none_right_eq_some, Option.some.injEq] at h h'
  cases ref
  cases ref'
  cases h.1
  cases h'.1
  cases h.2
  cases h'.2
  rfl

end Machine

open Machine

theorem teardown_givesUp (hs : m.core.Sound) (h : teardown s order m = .ok u m') :
    m.GivesUp m' (· = s) := by
  have hperm := order.perm (m.pageNumbers s)
  refine ⟨_, ?_, fun ref => ?_, teardown_ledger hs h⟩
  · refine List.Nodup.map (fun vpn vpn' heq => ?_) (hperm.nodup_iff.2 (m.pageNumbers_nodup s))
    cases heq
    rfl
  · rw [List.mem_map, ledger_looks]
    constructor
    · rintro ⟨vpn, hvpn, rfl⟩
      refine ⟨rfl, ?_⟩
      rw [Table.mem_keys, Option.isSome_iff_ne_none]
      exact mem_pageNumbers.1 (hperm.mem_iff.1 hvpn)
    · rintro ⟨rfl, hkey⟩
      rw [Table.mem_keys, Option.isSome_iff_ne_none] at hkey
      exact ⟨ref.vpn, hperm.mem_iff.2 (mem_pageNumbers.2 hkey), rfl⟩

theorem Operation.closes_ends (hop : op.closes = some s) (h : m.Tidy n loan) :
    Ends (fun _ _ => False) op.perform m fun a m' =>
      op.wrecks a = false ∧ m'.Tidy n loan ∧ m.GivesUp m' (· = s) := by
  cases op with
  | teardown s' order =>
      cases hop
      refine (teardown_upholds s order h).bind fun _ m₁ h₁ htidy => ?_
      exact ⟨rfl, htidy, teardown_givesUp h.sound h₁⟩
  | exit s' order =>
      cases hop
      refine (exitSpace_upholds s order h).bind fun _ m₁ h₁ htidy => ?_
      obtain ⟨_, m₂, h₂, h₃⟩ := bind_ok.1 h₁
      have hgone := teardown_givesUp h.sound h₂
      obtain rfl := modify_ok.1 h₃
      exact ⟨rfl, htidy, hgone⟩
  | _ => exact nomatch hop

namespace Machine

theorem serve_closes (h : m.Tidy n loan) (only : ∀ op ∈ ops, op.closes ≠ none) :
    ∃ log m', m.serve ops = some (log, m') ∧ m'.Tidy n loan ∧
      m.GivesUp m' fun s => ∃ op ∈ ops, op.closes = some s := by
  induction ops generalizing m with
  | nil => exact ⟨[], m, rfl, h, (GivesUp.none m).of_iff fun _ _ => ⟨nofun, nofun⟩⟩
  | cons op rest ih =>
      obtain ⟨s, hop⟩ := Option.ne_none_iff_exists'.1 (only op List.mem_cons_self)
      obtain ⟨a, m₁, hrun, whole, htidy, hfirst⟩ := (Operation.closes_ends hop h).result
      obtain ⟨log, m', hserve, htidy', hrest⟩ :=
        ih htidy fun op hop => only op (List.mem_cons_of_mem _ hop)
      refine ⟨(op, a) :: log, m', ?_, htidy', (hfirst.trans hrest).of_iff fun ref _ => ?_⟩
      · rw [serve, hrun]
        simp only [whole, hserve, Bool.false_eq_true, if_false, Option.map_some]
      · simp only [List.mem_cons, exists_eq_or_imp, hop, Option.some.injEq]
        exact or_congr_left eq_comm

theorem Tidy.returned {before : Machine} (h : m.Tidy n before.handles) (empty : m.pages.keys = []) :
    m.Returned n before := by
  have hrows : m.pages.rows = [] := List.map_eq_nil_iff.1 empty
  have hexact := h.exact
  have hheld : m.heldFrames = [] := by rw [heldFrames, hrows, List.filterMap_nil]
  have hresident : m.stats.residentFrames = 0 := by
    rw [hexact.resident, hheld, List.dedup_nil, List.length_nil]
  have hfree : m.memory.pool.free = n := by
    rw [← hexact.all, hresident, Nat.zero_add, Pool.length_handsOut]
  refine ⟨empty, hresident, ?_, ?_, ?_, fun ref => ?_, fun id => ?_⟩
  · rw [hexact.shared, hheld, List.dedup_nil, List.countP_nil]
  · rw [hexact.swapped, hrows, List.countP_nil]
  · exact Pool.handsOut_perm h.sound.pooled.once
      h.accounted.stocked.free_lt hfree
  · refine Option.eq_none_iff_forall_ne_some.2 fun mapping hmapping => ?_
    obtain ⟨page, -, -, hpage, -⟩ := h.sound.mapped ref mapping hmapping
    have hkey : ref ∈ m.pages.keys := Table.mem_keys.2 (Option.isSome_of_eq_some hpage)
    rw [empty] at hkey
    cases hkey
  · have hlent : m.core.lent = 0 := by
      rw [Core.lent, Table.total, show m.core.pages.rows = [] from hrows]
      rfl
    have hhandles := h.handles
    rw [hlent, add_zero] at hhandles
    exact congrFun hhandles id

theorem Ending.serve {before : Machine} (ending : m.Ending ops) (h : m.Tidy n before.handles) :
    ∃ log m', m.serve ops = some (log, m') ∧ m'.Returned n before ∧ m.GivesUp m' fun _ => True := by
  obtain ⟨log, m', hserve, htidy, hclosed⟩ := serve_closes h ending.only
  -- spaces that no request names have no pages
  have hgone : m.GivesUp m' fun _ => True :=
    hclosed.of_iff fun ref hkey => ⟨fun _ => trivial, fun _ => ending.all ref hkey⟩
  have hempty : m'.pages.keys = [] := List.eq_nil_iff_forall_not_mem.2 fun ref hkey =>
    (hgone.looks.1 (ledger_looks.2 hkey)).1 trivial
  exact ⟨log, m', hserve, htidy.returned hempty, hgone⟩

theorem dirtyRange?_of_debt {d : Debt} (h : m.ledger.debt? ref = some d) :
    ref ∈ m.pages.keys ∧ m.dirtyRange? ref = some d.backing := by
  obtain ⟨look, hlook, hdebt⟩ := Option.bind_eq_some_iff.1 h
  obtain ⟨page, hpage, rfl⟩ := Option.map_eq_some_iff.1 hlook
  replace hpage : m.pages.find? ref = some page := hpage
  refine ⟨Table.mem_keys.2 (Option.isSome_of_eq_some hpage), ?_⟩
  unfold Look.debt? at hdebt
  split at hdebt
  · next backing bytes heq =>
      obtain rfl := Option.some.inj hdebt
      obtain ⟨hkind, -, -, hdirty⟩ := Look.mk.inj heq
      cases hmapping : m.mappings.find? ref with
      | none =>
          rw [dirty_none hmapping] at hdirty
          cases hdirty
      | some mapping =>
          rw [dirty_of_find hmapping] at hdirty
          simp only [dirtyRange?, hpage, hmapping, hkind, hdirty, Option.bind_eq_bind,
            Option.bind_some, if_pos]
  · cases hdebt

theorem ledger_fair (apart : m.DirtyApart) (steady : m.DirtySteady) : m.ledger.Fair := by
  intro ref ref' d d' hne hd hd'
  obtain ⟨hkey, hrange⟩ := dirtyRange?_of_debt hd
  obtain ⟨hkey', hrange'⟩ := dirtyRange?_of_debt hd'
  exact ⟨apart ref hkey ref' hkey' hne _ hrange _ hrange',
    steady ref hkey ref' hkey' hne _ hrange _ hrange'⟩

theorem file_eq (stored : m.stored = m'.stored)
    (handles : ∀ id, (m.file id).handles = (m'.file id).handles) (id : FileId) : m.file id = m'.file id := by
  have hfile := congrArg (fun file : File => { file with handles := (m.file id).handles })
    (congrFun stored id)
  exact hfile.trans (by rw [handles]; rfl)

end Machine

/-- When all spaces are torn down, which never makes the machine stop, all frames, swap slots,
entries and handles are given back, whatever requests were served or failed before and in whatever
order it is done; and if dirty pages do not compete for a file, the order makes no difference to the
files. -/
theorem exit_returns_everything {sectors : Option Nat} {files : List File} {allocator : Allocator}
    (reached : (Machine.fresh n sectors files allocator).Reaches m) (ending : m.Ending ops) :
    ∃ log m', m.serve ops = some (log, m') ∧ m'.Returned n (Machine.fresh n sectors files allocator) ∧
      (m.DirtyApart → m.DirtySteady → ∀ ops', m.Ending ops' → ∀ log' m'',
        m.serve ops' = some (log', m'') → ∀ id, m''.file id = m'.file id) := by
  have htidy := reached.tidy (Machine.fresh_tidy n sectors files allocator)
  obtain ⟨log, m', hserve, hreturned, hgone⟩ := ending.serve htidy
  refine ⟨log, m', hserve, hreturned, fun apart steady ops' ending' log' m'' hserve' => ?_⟩
  obtain ⟨_, _, hserved, hreturned', hgone'⟩ := ending'.serve htidy
  obtain ⟨rfl, rfl⟩ := Prod.mk.inj (Option.some.inj (hserve'.symm.trans hserved))
  exact Machine.file_eq (hgone'.stored_eq hgone (Machine.ledger_fair apart steady)) fun id =>
    (hreturned'.handles id).trans (hreturned.handles id).symm

/-- A page of a file is shared by two spaces, an anonymous one is in the swap area, and the file takes
one byte of a write. -/
theorem exit_returns_everything_after_copy : ∃ m,
    (Machine.fresh 3 (some 16) [.ofData #[46, 46, 46, 46] false]).Reaches m ∧ m.stats = ⟨3, 1, 1, 2⟩ ∧
      (m.pages.keys.filterMap m.dirtyRange?).map (fun a => (a.file, a.offset)) = [(0, 0), (0, 2)] ∧
      m.Ending [.exit 0 .asStored, .teardown 1 .asStored, .exit 2 .asStored] ∧
      m.DirtyApart ∧ m.DirtySteady ∧
      m.Ending [.teardown 2 .asStored, .exit 1 .asStored, .teardown 0 .asStored] ∧
      ∃ log m', m.serve [.exit 0 .asStored, .teardown 1 .asStored, .exit 2 .asStored] =
          some (log, m') ∧
        m'.Returned 3 (Machine.fresh 3 (some 16) [.ofData #[46, 46, 46, 46] false]) ∧
        ∀ log' m'', m.serve [.teardown 2 .asStored, .exit 1 .asStored, .teardown 0 .asStored] =
          some (log', m'') → ∀ id, m''.file id = m'.file id := by
  have played : ((Machine.fresh 3 (some 16) [.ofData #[46, 46, 46, 46] false]).serve [.newSpace,
      .newSpace, .declare 1 (.ofBits 8192) true .anon none, .claim 1 (.ofBits 8192),
      .insert 0 (.ofBits 4096) true (.file 0 0 2), .insert 1 (.ofBits 4096) true (.file 0 2 2),
      .write 0 (.ofBits 4096) #[1, 2] (.ofBits 0), .write 1 (.ofBits 4096) #[3, 4] (.ofBits 0),
      .fork 0 2 .asStored, .declare 1 (.ofBits 12288) true .anon none,
      .claim 1 (.ofBits 12288)]).any (fun r =>
        (r.2.ask [] (.configureFile 0 ⟨none, none, some (.always (some 1)), none⟩)).any fun r₁ =>
          decide (r₁.2.stats = ⟨3, 1, 1, 2⟩ ∧
            (r₁.2.pages.keys.filterMap r₁.2.dirtyRange?).map (fun a => (a.file, a.offset)) =
              [(0, 0), (0, 2)] ∧
            (∀ ref ∈ r₁.2.pages.keys, ∀ a ∈ r₁.2.dirtyRange? ref, a.file = 0) ∧
            r₁.2.Ending [.exit 0 .asStored, .teardown 1 .asStored, .exit 2 .asStored] ∧
            r₁.2.DirtyApart ∧
            r₁.2.Ending [.teardown 2 .asStored, .exit 1 .asStored, .teardown 0 .asStored])) =
      true := by
    decide +kernel
  obtain ⟨⟨log, m₁⟩, hserved, hchecked⟩ := (Option.any_eq_true _ _).1 played
  obtain ⟨⟨a, m⟩, asked, hchecked⟩ := (Option.any_eq_true _ _).1 hchecked
  have answered := Machine.ask_eq_some.1 asked
  obtain ⟨hstats, hdirty, hfile, ending, apart, ending'⟩ := of_decide_eq_true hchecked
  have reached : Machine.Reaches _ m := .served [] (Machine.Reaches.refl.serve hserved) answered
  have steady : m.DirtySteady := by
    intro ref hkey _ _ _ a ha _ _ _ i j
    obtain ⟨_, m₂, h₁, h⟩ := bind_ok.1 answered
    obtain ⟨-, rfl⟩ := pure_ok.1 h
    rw [hfile ref hkey a ha, useFile_file h₁, Function.update_self]
    rfl
  obtain ⟨log', m', hserve, hreturned, horder⟩ := exit_returns_everything reached ending
  exact ⟨m, reached, hstats, hdirty, ending, apart, steady, ending', log', m', hserve, hreturned,
    horder apart steady _ ending'⟩

/-- When the file takes one write and no more, what it holds in the end is up to the page that is
given up first. -/
theorem exit_order_matters : ∃ m, (Machine.fresh 2 none [{ File.ofData #[46, 46] false with
      writeCaps := ⟨fun k => if k = 0 then none else some 0, 0⟩ }]).Reaches m ∧ m.DirtyApart ∧
      m.Ending [.exit 0 .asStored, .exit 1 .asStored] ∧
      m.Ending [.exit 1 .asStored, .exit 0 .asStored] ∧
      ∃ log log' m' m'', m.serve [.exit 0 .asStored, .exit 1 .asStored] = some (log, m') ∧
        m.serve [.exit 1 .asStored, .exit 0 .asStored] = some (log', m'') ∧
        (m'.file 0).data ≠ (m''.file 0).data := by
  have played : ((Machine.fresh 2 none [{ File.ofData #[46, 46] false with
      writeCaps := ⟨fun k => if k = 0 then none else some 0, 0⟩ }]).serve [.newSpace,
      .insert 0 (.ofBits 4096) true (.file 0 0 1), .insert 1 (.ofBits 4096) true (.file 0 1 1),
      .write 0 (.ofBits 4096) #[1] (.ofBits 0), .write 1 (.ofBits 4096) #[2] (.ofBits 0)]).any
        (fun r => decide (r.2.DirtyApart ∧ r.2.Ending [.exit 0 .asStored, .exit 1 .asStored] ∧
          r.2.Ending [.exit 1 .asStored, .exit 0 .asStored]) &&
          (r.2.serve [.exit 0 .asStored, .exit 1 .asStored]).any fun e =>
            (r.2.serve [.exit 1 .asStored, .exit 0 .asStored]).any fun e' =>
              decide ((e.2.file 0).data ≠ (e'.2.file 0).data)) = true := by decide +kernel
  obtain ⟨⟨log, m⟩, hserved, hchecked⟩ := (Option.any_eq_true _ _).1 played
  obtain ⟨hall, hends⟩ := Bool.and_eq_true_iff.1 hchecked
  obtain ⟨apart, ending, ending'⟩ := of_decide_eq_true hall
  obtain ⟨⟨log, m'⟩, hserve, hends⟩ := (Option.any_eq_true _ _).1 hends
  obtain ⟨⟨log', m''⟩, hserve', hdata⟩ := (Option.any_eq_true _ _).1 hends
  exact ⟨m, Machine.Reaches.refl.serve hserved, apart, ending, ending', log, log', m', m'', hserve,
    hserve', of_decide_eq_true hdata⟩

end DemandPaging
