import DemandPaging.Proofs.Snapshots
import DemandPaging.Proofs.Upkeep

/-!
Faults that are reported as resolved. The access that faulted goes on: its page is in memory, the page
table leads to it, and a write reaches nobody else. So the same access never faults twice on end.
-/

namespace DemandPaging

open DemandPaging.Core

variable {m m' : Machine} {ref : PageRef} {page : Page} {id : FrameId} {frame : Frame} {s : SpaceId}
  {va sp : VirtAddr} {write : Bool} {frames n : Nat} {sectors : Option Nat} {files : List File}
  {allocator : Allocator}

theorem Machine.Passes.sound (passes : (Machine.fresh frames sectors files allocator).Passes m) :
    m.core.Sound := by
  obtain ⟨m₁, ds, run, steps⟩ := passes
  exact steps.sound (run.tidy (Machine.fresh_tidy frames sectors files allocator)).sound

namespace Core

variable {c c' : Core} {ds : List Deed}

/-- An access to a page may go on: the page table leads to the frame of the page. A page that is written
to has its frame for itself. -/
def Lets (c : Core) (ref : PageRef) (write : Bool) : Prop :=
  ∃ page id frame entry, c.pages.find? ref = some page ∧ page.frame = some id ∧
    c.frames.find? id = some frame ∧ c.mappings.find? ref = some entry ∧ entry.page = frame.page ∧
    (write = true → entry.writable = true ∧ frame.owners = [ref])

theorem Claims.lets {kind : PageKind} (h : c.Claims ref page id (kind, true) ds c')
    (table : page.entryRef ref = ref) (allowed : write = true → page.writable = true) :
    c'.Lets ref write := by
  cases h with
  | @filled _ _ phys _ _ free fills =>
      obtain ⟨swap, programs, rfl, -⟩ := fills.core_eq
      rw [table]
      refine ⟨_, id, ⟨phys, [ref]⟩, ⟨phys, page.writable, false⟩, stamp_found _ _ _, rfl, ?_, ?_, rfl,
        fun hw => ⟨allowed hw, rfl⟩⟩
      · exact FrameTable.find?_update_self
      · exact Table.find?_insert_self

theorem Parts.lets {old new : FrameId} (h : c.Parts ref page old new true ds c')
    (table : page.entryRef ref = ref) (writable : page.writable = true) : c'.Lets ref true := by
  cases h with
  | @copied _ phys owned many free =>
      rw [table]
      refine ⟨_, new, ⟨phys, [ref]⟩, ⟨phys, page.writable, c.dirty ref⟩,
        Table.find?_insert_self, rfl, ?_, ?_, rfl, fun _ => ⟨writable, rfl⟩⟩
      · exact FrameTable.find?_update_self
      · exact Table.find?_insert_self

end Core

theorem remap_lets (hs : m.core.Sound) (found : m.core.pages.find? ref = some page)
    (resident : page.frame = some id) (owned : m.core.frames.find? id = some frame)
    (allowed : write = true → page.writable = true ∧ page.cow = false)
    (h : remap (page.entryRef ref) frame.page page.mappedWritable m = .ok true m') :
    m'.core.Lets ref write := by
  rw [remap_done h, hs.entryRef found]
  refine ⟨page, id, frame, _, found, resident, owned, Table.find?_insert_self,
    rfl, fun hw => ?_⟩
  obtain ⟨writable, alone⟩ := allowed hw
  refine ⟨?_, hs.owned.sole ref page id frame found resident alone owned⟩
  simp only [Page.mappedWritable, writable, alone, Bool.not_false, Bool.and_self]

theorem breakSharing_lets {old : FrameId} (hs : m.core.Sound)
    (found : m.core.pages.find? ref = some page) (resident : page.frame = some old)
    (writable : page.writable = true) (h : breakSharing ref page old m = .ok true m') :
    m'.core.Lets ref true := by
  have entry := hs.entryRef found
  cases breakSharing_breaks hs found resident h with
  | alone owned sole =>
      obtain ⟨m₁, hm₁, h⟩ := breakSharing_alone owned sole h
      have run : Steps m.core [] m₁.core := hm₁ ▸ Steps.alone found resident owned sole
      have found₁ : m₁.core.pages.find? ref =
          some { page with lastAccess := m.core.clock + 1, cow := false } := by
        rw [hm₁]
        exact Table.find?_insert_self
      have hwritable : Page.mappedWritable { page with lastAccess := m.core.clock + 1, cow := false } =
          page.writable := Bool.and_true _
      rw [← hwritable] at h
      exact remap_lets (run.sound hs) found₁ resident (hm₁ ▸ owned) (fun _ => ⟨writable, rfl⟩) h
  | parted _ _ _ parts => exact parts.lets entry writable

theorem resolve_lets (hs : m.core.Sound) (h : resolve ref write m = .ok true m') :
    m'.core.Lets ref write := by
  generalize hdone : true = done at h
  cases resolve_resolves h with
  | absent => exact nomatch hdone
  | readOnly => exact nomatch hdone
  | claimed found allowed _ run =>
      subst hdone
      obtain ⟨-, -, -, -, -, -, claims, -⟩ := claimVacant_claimed hs run
      exact claims.lets (hs.entryRef found) allowed
  | parted found writes writable resident _ run =>
      subst hdone writes
      exact breakSharing_lets hs found resident writable run
  | remapped found allowed resident alone touched owned run =>
      subst hdone
      obtain ⟨stamped, found₁⟩ := touch_step found touched
      obtain ⟨rfl, -⟩ := touch_core touched
      exact remap_lets (stamped.sound hs) found₁ resident owned
        (fun writes => ⟨allowed writes, alone writes⟩) run

theorem resolveFault_lets {flags : FaultFlags} (hs : m.core.Sound)
    (h : resolveFault s va sp flags m = .ok true m') :
    m'.core.Lets ⟨s, va.vpnFloor⟩ flags.write := by
  cases resolveFault_faulted h with
  | refused _ answer => exact nomatch answer
  | there _ _ found touched resolved =>
      obtain ⟨stamped, -⟩ := touch_step (m := { m with console := _ }) found touched
      exact resolve_lets (stamped.sound hs) resolved
  | grown _ _ _ absent _ resolved =>
      -- the stack grows by a page, which is then claimed
      have grows : Step m.core [.add ⟨s, va.vpnFloor⟩ (.fresh s true (.uninit .anon none))] _ :=
        .add absent nofun
      exact resolve_lets (by exact grows.sound hs) resolved

theorem mapping?_ok {found : Option Mapping} (h : m.core.mappings.find? ⟨s, va.vpnFloor⟩ = found) :
    mapping? s va m = .ok found m := by
  rw [← h]
  rfl

theorem Core.Lets.readMapped (h : m.core.Lets ⟨s, va.vpnFloor⟩ write) (n : Nat) :
    ∃ bytes, m.core.held? ⟨s, va.vpnFloor⟩ = some bytes ∧
      DemandPaging.readMapped s va n m = .ok (some (PageBytes.slice bytes va.pageOffset n)) m := by
  obtain ⟨page, id, frame, entry, found, resident, owned, entered, leads, -⟩ := h
  refine ⟨m.core.memory.read frame.page, held_resident found resident owned, ?_⟩
  refine bind_ok.2 ⟨_, m, mapping?_ok entered, bind_ok.2 ⟨_, m, rfl, ?_⟩⟩
  rw [leads]
  rfl

theorem Core.Lets.writeMapped (hs : m.core.Sound) (h : m.core.Lets ⟨s, va.vpnFloor⟩ true)
    (bytes : Array UInt8) : ∃ m' before, DemandPaging.writeMapped s va bytes m = .ok true m' ∧
      m.core.held? ⟨s, va.vpnFloor⟩ = some before ∧
      m'.core.held? ⟨s, va.vpnFloor⟩ = some (before.patch va.pageOffset bytes) ∧
      (∀ other, other ≠ ⟨s, va.vpnFloor⟩ → m'.core.looks other = m.core.looks other) ∧
      m'.core.swap = m.core.swap ∧ m'.core.files = m.core.files := by
  obtain ⟨page, id, frame, entry, found, resident, owned, entered, leads, writes⟩ := h
  obtain ⟨writable, alone⟩ := writes rfl
  have done : DemandPaging.writeMapped s va bytes m = .ok true { m with
      memory := m.memory.write frame.page ((m.memory.read frame.page).patch va.pageOffset bytes)
      mappings := m.mappings.modify ⟨s, va.vpnFloor⟩ ({ · with dirty := true }) } := by
    refine bind_ok.2 ⟨_, m, mapping?_ok entered, ?_⟩
    simp only [writable, if_pos, leads]
    rfl
  refine ⟨_, m.core.memory.read frame.page, done, held_resident found resident owned, ?_,
    fun other hne => ?_, rfl, rfl⟩
  · have stored := held_resident (c := m.core.store ⟨s, va.vpnFloor⟩ frame.page
      ((m.core.memory.read frame.page).patch va.pageOffset bytes)) found resident owned
    exact stored.trans (congrArg some Memory.read_write_self)
  · -- The frame belongs to the page that is written to alone.
    have hmem : other ∉ frame.owners := by
      rw [alone]
      exact fun hm => hne (List.mem_singleton.1 hm)
    exact hs.looks_others owned hmem rfl (fun _ _ => rfl) (fun _ => Memory.read_write_of_ne)
      (Table.find?_modify_of_ne hne)

def Machine.allows (m : Machine) (ref : PageRef) (write : Bool) : Bool :=
  (m.mappings.find? ref).any fun entry => !write || entry.writable

theorem Core.Lets.allows (h : m.core.Lets ref write) : m.allows ref write = true := by
  obtain ⟨page, id, frame, entry, -, -, -, entered, -, writes⟩ := h
  rw [Machine.allows, show m.mappings.find? ref = some entry from entered, Option.any_some]
  cases write with
  | false => rfl
  | true => exact (writes rfl).1

/-- One access that is tried over and over: it faults so many times on end, and each of its faults is
reported as resolved. -/
inductive Machine.Stalls (m : Machine) (s : SpaceId) (va sp : VirtAddr) (write : Bool) :
    Nat → Machine → Prop where
  | start : Stalls m s va sp write 0 m
  | again {n : Nat} {m₁ m' : Machine} (held : List PageRef) (before : Stalls m s va sp write n m₁)
      (stopped : m₁.allows ⟨s, va.vpnFloor⟩ write = false)
      (resolved : faultIn s va sp write { m₁ with held } = .ok true m') :
      Stalls m s va sp write (n + 1) m'

theorem Machine.Stalls.sound (h : m.Stalls s va sp write n m') (hs : m.core.Sound) :
    m'.core.Sound := by
  induction h with
  | start => exact hs
  | @again n m₁ m' held before stopped resolved ih =>
      obtain ⟨ds, steps, -⟩ := faultIn_core (m := { m₁ with held }) ih resolved
      exact steps.sound ih

theorem Machine.Stalls.le_one (h : m.Stalls s va sp write n m') (hs : m.core.Sound) : n ≤ 1 := by
  cases h with
  | start => exact Nat.zero_le 1
  | again held before stopped =>
      cases before with
      | start => exact Nat.le_refl 1
      | @again _ m₁ _ held before _ resolved =>
          -- the fault before was resolved, so the page table does not stop the access again
          obtain ⟨_, _, h₁, h⟩ := bind_ok.1 resolved
          obtain ⟨-, rfl⟩ := mapping?_core h₁
          have lets := resolveFault_lets (m := { m₁ with held }) (before.sound hs) h
          rw [FaultFlags.write_ofParts] at lets
          rw [lets.allows] at stopped
          exact nomatch stopped

/-- When a fault is reported as resolved, whatever the state was in which it was raised, the access goes
on: a read finds the bytes of the page, and a write changes them and nothing besides. An access never
faults twice on end with both faults resolved. -/
theorem resolved_fault_lets_access_on (passes : (Machine.fresh frames sectors files allocator).Passes m)
    (s : SpaceId) (addr sp : VirtAddr) :
    (∀ flags m', resolveFault s addr sp flags m = .ok true m' →
      m'.core.Lets ⟨s, addr.vpnFloor⟩ flags.write ∧
      ∀ va, va.vpnFloor = addr.vpnFloor →
        (∀ n, ∃ bytes, m'.core.held? ⟨s, addr.vpnFloor⟩ = some bytes ∧
          readMapped s va n m' = .ok (some (PageBytes.slice bytes va.pageOffset n)) m') ∧
        (flags.write = true → ∀ bytes, ∃ m'' before, writeMapped s va bytes m' = .ok true m'' ∧
          m'.core.held? ⟨s, addr.vpnFloor⟩ = some before ∧
          m''.core.held? ⟨s, addr.vpnFloor⟩ = some (before.patch va.pageOffset bytes) ∧
          (∀ other, other ≠ ⟨s, addr.vpnFloor⟩ → m''.core.looks other = m'.core.looks other) ∧
          m''.core.swap = m'.core.swap ∧ m''.core.files = m'.core.files)) ∧
      ∀ write n m', m.Stalls s addr sp write n m' → n ≤ 1 := by
  have hs := passes.sound
  refine ⟨fun flags m' resolved => ?_, fun write n m' stalls => stalls.le_one hs⟩
  have lets := resolveFault_lets hs resolved
  obtain ⟨ds, steps, -⟩ := resolveFault_core hs resolved
  refine ⟨lets, fun va same => ?_⟩
  rw [← same] at lets ⊢
  refine ⟨lets.readMapped, fun hw => ?_⟩
  rw [hw] at lets
  exact lets.writeMapped (steps.sound hs)

/-- The copy of a space fails halfway and is torn down, which leaves a page marked as shared that is not.
A write faults there, and goes on. -/
theorem resolved_fault_lets_access_on_after_failed_copy : ∃ m page m',
    (Machine.fresh 2 (some 16) []).Passes m ∧ m.pages.find? ⟨0, ⟨1⟩⟩ = some page ∧ page.cow = true ∧
      m.allows ⟨0, ⟨1⟩⟩ true = false ∧
      resolveFault 0 (.ofBits 4096) (.ofBits 0) (.ofParts true true true) m = .ok true m' ∧
      m'.core.Lets ⟨0, ⟨1⟩⟩ true ∧
      ∃ (m'' : Machine) (bytes : PageBytes), writeMapped 0 (.ofBits 4097) #[9] m' = .ok true m'' ∧
        m''.core.held? ⟨0, ⟨1⟩⟩ = some (bytes.patch 1 #[9]) := by
  have played : ((Machine.fresh 2 (some 16) []).serve [.newSpace,
      .declare 0 (.ofBits 4096) true .anon none, .write 0 (.ofBits 4096) #[1, 2] (.ofBits 0),
      .setInstalls 1 (.budget (some 0))]).any (fun r =>
        (r.2.ask [] (.fork 0 1 .asStored)).any fun r₁ => r₁.1.flag? == some false &&
          (r₁.2.ask [] (.teardown 1 .asStored)).any fun r₂ =>
            (r₂.2.pages.find? ⟨0, ⟨1⟩⟩).any (·.cow) && (r₂.2.allows ⟨0, ⟨1⟩⟩ true == false &&
              (r₂.2.ask [] (.fault 0 (.ofBits 4096) (.ofBits 0) (.ofParts true true true))).any
                fun r₃ => r₃.1.flag? == some true)) = true := by
    decide +kernel
  obtain ⟨⟨log, m₁⟩, hserved, hcheck⟩ := (Option.any_eq_true _ _).1 played
  obtain ⟨⟨a₁, m₂⟩, forked, hcheck⟩ := (Option.any_eq_true _ _).1 hcheck
  obtain ⟨-, hcheck⟩ := Bool.and_eq_true_iff.1 hcheck
  obtain ⟨⟨a₂, m₃⟩, cleared, hcheck⟩ := (Option.any_eq_true _ _).1 hcheck
  obtain ⟨hpage, hcheck⟩ := Bool.and_eq_true_iff.1 hcheck
  obtain ⟨page, found, cow⟩ := (Option.any_eq_true _ _).1 hpage
  obtain ⟨stopped, hcheck⟩ := Bool.and_eq_true_iff.1 hcheck
  obtain ⟨⟨a₃, m'⟩, asked, hflag⟩ := (Option.any_eq_true _ _).1 hcheck
  obtain rfl := Answer.flag?_eq_some.1 (beq_iff_eq.1 hflag)
  have run : (Machine.fresh 2 (some 16) []).Reaches m₃ :=
    .served [] (.served [] (Machine.Reaches.refl.serve hserved) (Machine.ask_eq_some.1 forked))
      (Machine.ask_eq_some.1 cleared)
  have passes := run.passes []
  obtain ⟨done, _, resolved, h⟩ := bind_ok.1 (Machine.ask_eq_some.1 asked)
  obtain ⟨hdone, rfl⟩ := pure_ok.1 h
  cases hdone
  obtain ⟨lets, goes_on⟩ :=
    (resolved_fault_lets_access_on passes 0 (.ofBits 4096) (.ofBits 0)).1 _ _ resolved
  obtain ⟨m'', before, written, -, now, -⟩ := (goes_on (.ofBits 4097) rfl).2 (by decide) #[9]
  exact ⟨_, page, _, passes, found, cow, beq_iff_eq.1 stopped, resolved, lets, m'', before, written, now⟩

end DemandPaging
