import DemandPaging.Proofs.Tracing

namespace DemandPaging

variable {m m' : Machine} {ref : PageRef} {page : Page} {s : SpaceId} {va addr sp : VirtAddr}
  {flags : FaultFlags} {write done : Bool}

theorem find_ok {got : Option Page} (h : find s va m = .ok got m') :
    (got = none ∧ m.pages.find? ⟨s, va.vpnFloor⟩ = none ∧ m = m') ∨
      ∃ page page', m.pages.find? ⟨s, va.vpnFloor⟩ = some page ∧ got = some page' ∧
        touch ⟨s, va.vpnFloor⟩ page m = .ok page' m' := by
  obtain ⟨got', _, h₁, h⟩ := bind_ok.1 h
  obtain ⟨hgot, rfl⟩ := page?_core h₁
  cases got' with
  | none =>
      obtain ⟨rfl, rfl⟩ := pure_ok.1 h
      exact .inl ⟨rfl, hgot.symm, rfl⟩
  | some page =>
      obtain ⟨page', h₂, rfl⟩ := bind_pure_ok.1 h
      exact .inr ⟨page, page', hgot.symm, rfl, h₂⟩

theorem find_found {got : Option Page} (found : m.core.pages.find? ⟨s, va.vpnFloor⟩ = some page)
    (h : find s va m = .ok got m') :
    got = some { page with lastAccess := m.core.clock + 1 } ∧
      m'.core = m.core.stamp ⟨s, va.vpnFloor⟩ page := by
  rcases find_ok h with ⟨-, absent, -⟩ | ⟨p, page', found', rfl, touched⟩
  · exact nomatch absent.symm.trans found
  · cases Option.some.inj (found'.symm.trans found)
    obtain ⟨rfl, hm'⟩ := touch_core touched
    exact ⟨rfl, hm'⟩

/-- How an access to a page ends: it is turned down, or the page gets a frame, or it parts from those that
share its frame, or it is just mapped again. -/
inductive Machine.Resolves (m : Machine) (ref : PageRef) (write : Bool) :
    Bool → Machine → Prop where
  | absent (absent : m.core.pages.find? ref = none) : Resolves m ref write false m
  | readOnly {page : Page} {m' : Machine} (found : m.core.pages.find? ref = some page)
      (writes : write = true) (fixed : page.writable = false) (same : m'.core = m.core) :
      Resolves m ref write false m'
  | claimed {page : Page} {done : Bool} {m' : Machine} (found : m.core.pages.find? ref = some page)
      (allowed : write = true → page.writable = true) (away : page.frame = none)
      (run : claimVacant ref page m = .ok done m') : Resolves m ref write done m'
  | parted {page : Page} {id : FrameId} {done : Bool} {m' : Machine}
      (found : m.core.pages.find? ref = some page) (writes : write = true)
      (writable : page.writable = true) (resident : page.frame = some id) (cow : page.cow = true)
      (run : breakSharing ref page id m = .ok done m') : Resolves m ref write done m'
  | remapped {page page' : Page} {id : FrameId} {frame : Frame} {m₁ m' : Machine} {done : Bool}
      (found : m.core.pages.find? ref = some page) (allowed : write = true → page.writable = true)
      (resident : page.frame = some id) (alone : write = true → page.cow = false)
      (touched : touch ref page m = .ok page' m₁) (owned : m₁.core.frames.find? id = some frame)
      (run : remap (page'.entryRef ref) frame.page page'.mappedWritable m₁ = .ok done m') :
      Resolves m ref write done m'

theorem resolve_resolves (h : resolve ref write m = .ok done m') :
    m.Resolves ref write done m' := by
  obtain ⟨got, _, h₁, h⟩ := bind_ok.1 h
  obtain ⟨hgot, rfl⟩ := page?_core h₁
  cases got with
  | none =>
      obtain ⟨rfl, rfl⟩ := pure_ok.1 h
      exact .absent hgot.symm
  | some page =>
      dsimp only at h
      split at h
      · next refused =>
          obtain ⟨writes, fixed⟩ := Bool.and_eq_true_iff.1 refused
          obtain ⟨_, h₂, rfl⟩ := bind_pure_ok.1 h
          exact .readOnly hgot.symm writes (by simpa using fixed) (emit_core h₂)
      · next granted =>
          have allowed : write = true → page.writable = true := fun writes => by
            simpa only [writes, Bool.true_and, Bool.not_eq_true', Bool.not_eq_false] using granted
          cases resident : page.frame with
          | none =>
              simp only [resident] at h
              exact .claimed hgot.symm allowed resident h
          | some id =>
              simp only [resident] at h
              split at h
              · next parts =>
                  obtain ⟨cow, writes⟩ := Bool.and_eq_true_iff.1 parts
                  exact .parted hgot.symm writes (allowed writes) resident cow h
              · next stays =>
                  obtain ⟨page', m₁, touched, h⟩ := bind_ok.1 h
                  obtain ⟨_, _, h₃, h⟩ := bind_ok.1 h
                  obtain ⟨frame, owned, rfl, rfl⟩ := physPage_core h₃
                  refine .remapped hgot.symm allowed resident (fun writes => ?_) touched owned h
                  simpa only [writes, Bool.and_true, Bool.not_eq_true] using stays

theorem resolve_write (found : m.core.pages.find? ref = some page) (writable : page.writable = true)
    (h : resolve ref true m = .ok done m') :
    (page.frame = none ∧ claimVacant ref page m = .ok done m') ∨
    (page.cow = true ∧ ∃ id, page.frame = some id ∧ breakSharing ref page id m = .ok done m') ∨
    (page.cow = false ∧ ∃ id page' m₁ frame, page.frame = some id ∧ touch ref page m = .ok page' m₁ ∧
      m₁.core.frames.find? id = some frame ∧
        remap (page'.entryRef ref) frame.page page'.mappedWritable m₁ = .ok done m') := by
  cases resolve_resolves h with
  | absent absent => exact nomatch absent.symm.trans found
  | readOnly found' _ fixed =>
      cases Option.some.inj (found'.symm.trans found)
      exact nomatch fixed.symm.trans writable
  | claimed found' _ away run =>
      cases Option.some.inj (found'.symm.trans found)
      exact .inl ⟨away, run⟩
  | parted found' _ _ resident cow run =>
      cases Option.some.inj (found'.symm.trans found)
      exact .inr (.inl ⟨cow, _, resident, run⟩)
  | remapped found' _ resident alone touched owned run =>
      cases Option.some.inj (found'.symm.trans found)
      exact .inr (.inr ⟨alone rfl, _, _, _, _, resident, touched, owned, run⟩)

def VirtAddr.InStack (addr sp : VirtAddr) : Prop :=
  DemandPaging.userStackTop - maxStackSize ≤ addr.val ∧ addr.val < DemandPaging.userStackTop ∧
    sp.val - 8 ≤ addr.val

theorem VirtAddr.inStack_iff : isStackGrowth addr sp = true ↔ addr.InStack sp := by
  simp only [isStackGrowth, InStack, Bool.and_eq_true, decide_eq_true_eq]
  constructor
  · rintro ⟨⟨top, bottom⟩, slack⟩
    exact ⟨bottom, top, slack⟩
  · rintro ⟨bottom, top, slack⟩
    exact ⟨⟨top, bottom⟩, slack⟩

theorem VirtAddr.isUser_iff : addr.isUser = true ↔ 0 < addr.val ∧ addr.val < userSpaceEnd := by
  simp only [isUser, Bool.and_eq_true, decide_eq_true_eq]

theorem VirtAddr.InStack.floor (h : addr.InStack sp) :
    addr.pageFloor.isUser = true ∧ addr.pageFloor.isPageAligned = true := by
  obtain ⟨bottom, top, -⟩ := h
  rw [isUser_iff]
  simp only [isPageAligned, pageFloor, pageOffset, beq_iff_eq, DemandPaging.userStackTop, maxStackSize,
    mebi, kibi, userSpaceEnd, pageSize] at *
  omega

theorem declare_grown (grows : addr.InStack sp) (absent : m.pages.find? ⟨s, addr.vpnFloor⟩ = none) :
    declare s addr.pageFloor true .anon none m = .ok true { m with
      pages := m.pages.insert ⟨s, addr.vpnFloor⟩ (.fresh s true (.uninit .anon none)) } := by
  obtain ⟨user, aligned⟩ := grows.floor
  unfold declare
  simp only [user, aligned, Bool.and_self, if_true, VirtAddr.vpnFloor_pageFloor]
  exact bind_ok.2 ⟨none, m, congrArg (EStateM.Result.ok · m) absent, rfl⟩

/-- How a fault is dealt with: it is turned down at once, or the page is there and the access to it goes
on or not, or the stack grows first. -/
inductive Machine.Faulted (m : Machine) (s : SpaceId) (addr sp : VirtAddr) (flags : FaultFlags)
    (done : Bool) (m' : Machine) : Prop where
  | refused (console : List Event) (answer : done = false)
      (reason : ¬ (0 < addr.val ∧ addr.val < userSpaceEnd) ∨
        (flags.present = true ∧ flags.write = false) ∨
        (m.pages.find? ⟨s, addr.vpnFloor⟩ = none ∧ ¬ addr.InStack sp))
      (same : m' = { m with console })
  | there {page page' : Page} {m₁ : Machine}
      (user : 0 < addr.val ∧ addr.val < userSpaceEnd)
      (faulty : ¬ (flags.present = true ∧ flags.write = false))
      (found : m.pages.find? ⟨s, addr.vpnFloor⟩ = some page)
      (touched : touch ⟨s, addr.vpnFloor⟩ page
        { m with console := .pageFault addr flags :: m.console } = .ok page' m₁)
      (resolved : resolve ⟨s, addr.vpnFloor⟩ flags.write m₁ = .ok done m')
  | grown (console : List Event)
      (user : 0 < addr.val ∧ addr.val < userSpaceEnd)
      (faulty : ¬ (flags.present = true ∧ flags.write = false))
      (absent : m.pages.find? ⟨s, addr.vpnFloor⟩ = none) (grows : addr.InStack sp)
      (resolved : resolve ⟨s, addr.vpnFloor⟩ flags.write { m with
        console
        pages := m.pages.insert ⟨s, addr.vpnFloor⟩ (.fresh s true (.uninit .anon none)) } =
          .ok done m')

theorem resolveFault_faulted (h : resolveFault s addr sp flags m = .ok done m') :
    m.Faulted s addr sp flags done m' := by
  obtain ⟨_, m₁, h₁, h⟩ := bind_ok.1 h
  obtain rfl := emit_ok.1 h₁
  split at h
  · next notUser =>
      obtain ⟨_, h₂, rfl⟩ := bind_pure_ok.1 h
      refine .refused _ rfl (.inl fun user => ?_) (emit_ok.1 h₂).symm
      rw [VirtAddr.isUser_iff.2 user] at notUser
      exact nomatch notUser
  · next isUser =>
      have user := VirtAddr.isUser_iff.1 (by simpa using isUser)
      split at h
      · next presentRead =>
          obtain ⟨_, h₂, rfl⟩ := bind_pure_ok.1 h
          exact .refused _ rfl (.inr (.inl (by simpa using presentRead))) (emit_ok.1 h₂).symm
      · next notRead =>
          have faulty : ¬ (flags.present = true ∧ flags.write = false) := by simpa using notRead
          obtain ⟨got, m₂, h₂, h⟩ := bind_ok.1 h
          rcases find_ok h₂ with ⟨rfl, absent, rfl⟩ | ⟨page, page', found, rfl, touched⟩
          · dsimp only at h
            split at h
            · next grows =>
                have inStack := VirtAddr.inStack_iff.1 grows
                obtain ⟨_, m₃, h₃, h⟩ := bind_ok.1 h
                obtain rfl := emit_ok.1 h₃
                obtain ⟨added, m₄, h₄, h⟩ := bind_ok.1 h
                cases (declare_grown (m := _) inStack (by exact absent)).symm.trans h₄
                exact .grown _ user faulty absent inStack h
            · next stays =>
                obtain ⟨_, h₃, rfl⟩ := bind_pure_ok.1 h
                exact .refused _ rfl (.inr (.inr ⟨absent, fun grows =>
                  stays (VirtAddr.inStack_iff.2 grows)⟩)) (emit_ok.1 h₃).symm
          · exact .there user faulty found touched h

theorem resolveFault_write (found : m.core.pages.find? ⟨s, addr.vpnFloor⟩ = some page)
    (user : addr.isUser = true) (write : flags.write = true)
    (h : resolveFault s addr sp flags m = .ok done m') : ∃ page' m₁,
      touch ⟨s, addr.vpnFloor⟩ page { m with console := .pageFault addr flags :: m.console } =
        .ok page' m₁ ∧ resolve ⟨s, addr.vpnFloor⟩ true m₁ = .ok done m' := by
  cases resolveFault_faulted h with
  | refused _ _ reason =>
      rcases reason with notUser | ⟨-, read⟩ | ⟨absent, -⟩
      · exact (notUser (VirtAddr.isUser_iff.1 user)).elim
      · exact nomatch write.symm.trans read
      · exact nomatch absent.symm.trans found
  | there _ _ found' touched resolved =>
      cases Option.some.inj (found'.symm.trans found)
      exact ⟨_, _, touched, write ▸ resolved⟩
  | grown _ _ _ absent => exact nomatch absent.symm.trans found

end DemandPaging
