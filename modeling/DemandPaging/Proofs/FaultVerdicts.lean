import DemandPaging.Proofs.Evictions
import DemandPaging.Proofs.FirstContents
import DemandPaging.Proofs.UserWrites

/-!
Which faults are resolved. Whether a fault is depends on its address, the stack pointer and the flags, on
the page that is there, and on what the page table and the initializer of the page have to say; memory
has no part in it as long as a frame can be had.
-/

namespace DemandPaging

open DemandPaging.Core
open Keeps

variable {m m' m₁ : Machine} {ref entry : PageRef} {page : Page} {kind : PageKind} {id : FrameId}
  {phys : PhysPage} {s : SpaceId} {va sp : VirtAddr} {write done : Bool} {frames : Nat}
  {sectors : Option Nat} {files : List File} {allocator : Allocator}

namespace Machine

def takesEntry (m : Machine) (s : SpaceId) : Bool :=
  ((m.installs.find? s).getD (.always true)).next.1

def succeeds (m : Machine) : Initializer → Bool
  | .segment _ => true
  | .program id => (m.core.programs id).any fun routine => (routine.run routine.calls PageBytes.zero).2
  | .alwaysFail => false

def initializes (m : Machine) : PageKind → Bool
  | .uninit _ (some init) => m.succeeds init
  | _ => true

theorem takesEntry_congr (same : m'.installs = m.installs) (s : SpaceId) :
    m'.takesEntry s = m.takesEntry s := by
  rw [takesEntry, takesEntry, same]

theorem succeeds_congr (same : m'.core.programs = m.core.programs) (init : Initializer) :
    m'.succeeds init = m.succeeds init := by
  unfold succeeds
  rw [same]

theorem initializes_congr (same : m'.core.programs = m.core.programs) (kind : PageKind) :
    m'.initializes kind = m.initializes kind := by
  unfold initializes
  split
  · exact succeeds_congr same _
  · rfl

theorem initializes_used (used : kind.isUninit = false) : m.initializes kind = true := by
  cases kind with
  | uninit => exact nomatch used
  | anon | file => rfl

end Machine

/-! The verdict of each procedure. -/

theorem install_verdict {writable granted : Bool} (h : install entry phys writable m = .ok granted m') :
    granted = m.takesEntry entry.space := by
  obtain ⟨asked, m₁, h₁, h⟩ := bind_ok.1 h
  have verdict : m.takesEntry entry.space = asked := (Prod.mk.inj (modifyGet_ok.1 h₁)).1
  rw [verdict]
  cases asked with
  | true =>
      obtain ⟨_, _, -, h⟩ := bind_ok.1 h
      exact (pure_ok.1 h).1.symm
  | false => exact (pure_ok.1 h).1.symm

theorem remap_verdict {writable : Bool} (h : remap entry phys writable m = .ok done m') :
    done = m.takesEntry entry.space := by
  obtain ⟨dirty, _, h₁, h⟩ := bind_ok.1 h
  obtain ⟨-, rfl⟩ := isDirty_core h₁
  obtain ⟨granted, m₁, h₂, h⟩ := bind_ok.1 h
  rw [← install_verdict h₂]
  cases granted with
  | true =>
      obtain ⟨_, _, -, h⟩ := bind_ok.1 h
      exact (pure_ok.1 h).1.symm
  | false => exact (pure_ok.1 h).1.symm

theorem Initializer.run_verdict {init : Initializer} {bytes : PageBytes}
    (h : init.run PageBytes.zero m = .ok (bytes, done) m') : done = m.succeeds init := by
  have made := Initializer.run_produces h
  generalize hr : (bytes, done) = r at made
  generalize m'.core = c at made
  cases made with
  | segment => exact congrArg Prod.snd hr
  | program found =>
      rw [Machine.succeeds, found]
      exact congrArg Prod.snd hr
  | missing absent =>
      rw [Machine.succeeds, absent]
      exact congrArg Prod.snd hr
  | alwaysFail => exact congrArg Prod.snd hr

theorem PageKind.fill_verdict {kind' : PageKind} (clear : m.core.memory.read phys = PageBytes.zero)
    (h : kind.fill phys m = .ok (kind', done) m') : done = m.initializes kind := by
  -- the initializer runs on an empty page, and its copying changes nothing about it
  have verdict {init : Initializer} {retry : Option Initializer} {bytes : PageBytes} {filled : Bool}
      {m₁ m₂ : Machine} (copied : init.duplicate m = .ok retry m₁)
      (ran : init.run (m₁.core.memory.read phys) m₁ = .ok (bytes, filled) m₂) :
      filled = m.succeeds init := by
    have same := (Initializer.duplicate_core copied).1
    rw [same, clear] at ran
    exact (Initializer.run_verdict ran).trans
      (Machine.succeeds_congr (congrArg Core.programs same) init)
  cases fill_filled h with
  | newAnon | newFile | zero | slot | file => rfl
  | made copied ran => exact verdict copied ran
  | failed copied ran => exact verdict copied ran

theorem mapAndFill_verdict {kind' : PageKind} (clear : m.core.memory.read phys = PageBytes.zero)
    (h : mapAndFill ref page phys m = .ok (kind', done) m') :
    done = (m.takesEntry page.table && m.initializes page.kind) := by
  rcases mapAndFill_parts h with ⟨m₁, m₂, granted, told, filled⟩ | ⟨failed, refused⟩
  · have asked : true = m.takesEntry page.table := install_verdict granted
    rw [← asked, Bool.true_and]
    have hm₂ := (emit_core told).trans (install_granted granted)
    rw [PageKind.fill_verdict (by rw [hm₂]; exact clear) filled]
    exact Machine.initializes_congr (by rw [hm₂]; rfl) page.kind
  · have asked : false = m.takesEntry page.table := install_verdict refused
    rw [← asked]
    exact congrArg Prod.snd failed

theorem allocateFrame_rest (coherent : m.Coherent) (h : allocateFrame m = .ok id m') :
    m'.installs = m.installs ∧ m'.programs = m.programs := by
  rcases allocateFrame_ok coherent h with ⟨phys, memory, console, -, -, rfl⟩ | ⟨-, evicts⟩
  · exact ⟨rfl, rfl⟩
  · generalize some id = got at evicts
    cases evicts with
    | none | some => exact ⟨rfl, rfl⟩

theorem claimVacant_verdict (coherent : m.Coherent) (h : claimVacant ref page m = .ok done m') :
    done = (m.takesEntry page.table && m.initializes page.kind) := by
  obtain ⟨-, id, m₁, phys, m₂, kind, m₃, h₁, h₂, h₃, h₄, -⟩ := claimVacant_parts h
  obtain ⟨steps, ⟨taken, free⟩, -⟩ := allocateFrame_core coherent.sound h₁
  obtain ⟨frame, hframe, rfl, -⟩ := physPage_core h₂
  cases free.symm.trans hframe
  obtain ⟨frame, -, hm₂⟩ := link_core h₃
  obtain ⟨installs, programs⟩ := allocateFrame_rest coherent h₁
  have clear : m₂.core.memory.read taken = PageBytes.zero := by
    rw [hm₂]
    exact (steps.sound coherent.sound).pooled.clear id taken free
  rw [mapAndFill_verdict clear h₄]
  congr 1
  · have linked : m₂.installs = m₁.installs := (link_keeps _ _ : Keeps Machine.installs _) h₃
    exact Machine.takesEntry_congr (linked.trans installs) _
  · refine Machine.initializes_congr ?_ page.kind
    rw [hm₂]
    change m₁.core.programs = m.core.programs
    funext id
    simp only [Machine.core, programs]

theorem breakSharing_verdict {old : FrameId} (coherent : m.Coherent)
    (found : m.core.pages.find? ref = some page)
    (h : breakSharing ref page old m = .ok done m') : done = m.takesEntry page.table := by
  obtain ⟨page', m₁, shared, touched, -, alone, copied⟩ := breakSharing_parts h
  have same₁ : m₁.installs = m.installs := touch_keeps _ _ touched
  obtain ⟨stamped, -⟩ := touch_step found touched
  by_cases sole : shared.owners.length = 1
  · obtain ⟨m₂, m₃, h₁, h₂, h₃⟩ := alone sole
    have same₂ : m₂.installs = m₁.installs := setPage_keeps _ _ h₁
    have same₃ : m₃.installs = m₂.installs := emit_keeps _ rfl h₂
    rw [remap_verdict h₃]
    exact Machine.takesEntry_congr (same₃.trans (same₂.trans same₁)) _
  · obtain ⟨new, m₂, source, target, m₃, m₄, m₅, taken, -, -, written, unlinked, linked, h⟩ := copied sole
    obtain ⟨_, m₆, h₁, h⟩ := bind_ok.1 h
    obtain ⟨_, m₇, h₂, h⟩ := bind_ok.1 h
    obtain ⟨granted, m₈, h₃, h⟩ := bind_ok.1 h
    have same₂ : m₂.installs = m₁.installs :=
      (allocateFrame_rest (coherent.steps stamped.steps) taken).1
    have same₃ : m₃.installs = m₂.installs := writePhys_keeps _ _ written
    have same₄ : m₄.installs = m₃.installs := unlink_keeps _ _ unlinked
    have same₅ : m₅.installs = m₄.installs := link_keeps _ _ linked
    have same₆ : m₆.installs = m₅.installs := setPage_keeps _ _ h₁
    have same₇ : m₇.installs = m₆.installs := by rw [← emit_ok.1 h₂]
    have same : m₇.installs = m.installs := by
      rw [same₇, same₆, same₅, same₄, same₃, same₂, same₁]
    have verdict := (remap_verdict h₃).trans (Machine.takesEntry_congr same _)
    rw [show (page.entryRef ref).space = page.table from rfl] at verdict
    rw [← verdict]
    cases granted with
    | true => exact (pure_ok.1 h).1.symm
    | false =>
        obtain ⟨_, _, -, h⟩ := bind_ok.1 h
        obtain ⟨_, _, -, h⟩ := bind_ok.1 h
        obtain ⟨_, _, -, h⟩ := bind_ok.1 h
        exact (pure_ok.1 h).1.symm

theorem resolve_verdict (coherent : m.Coherent) (found : m.core.pages.find? ref = some page)
    (h : resolve ref write m = .ok done m') : done = ((!write || page.writable) &&
      (m.takesEntry ref.space && m.initializes page.kind)) := by
  have hs := coherent.sound
  have home := hs.owned.home ref page found
  rw [← home]
  -- the page that is found in each case is the one at hand
  have same {p : Page} (found' : m.core.pages.find? ref = some p) : p = page :=
    Option.some.inj (found'.symm.trans found)
  have granted (allowed : write = true → page.writable = true) : (!write || page.writable) = true := by
    cases write with
    | false => rfl
    | true => exact allowed rfl
  cases resolve_resolves h with
  | absent absent => exact nomatch absent.symm.trans found
  | readOnly found' writes fixed =>
      cases same found'
      rw [writes, fixed]
      rfl
  | claimed found' allowed _ run =>
      cases same found'
      rw [granted allowed, Bool.true_and]
      exact claimVacant_verdict coherent run
  | parted found' _ writable resident _ run =>
      cases same found'
      rw [granted fun _ => writable, Bool.true_and,
        Machine.initializes_used (hs.used found resident), Bool.and_true]
      exact breakSharing_verdict coherent found run
  | @remapped _ _ _ _ m₁ _ _ found' allowed resident _ touched _ run =>
      cases same found'
      rw [granted allowed, Bool.true_and,
        Machine.initializes_used (hs.used found resident), Bool.and_true]
      obtain ⟨rfl, -⟩ := touch_core touched
      have kept : m₁.installs = m.installs := touch_keeps _ _ touched
      exact (remap_verdict run).trans (Machine.takesEntry_congr kept _)

/-! Whether a frame can be had does not change on the way to the point where one is taken. -/

namespace Machine

/-- What a search for a frame looks at is the same: memory and frames, the pages that have a frame for
themselves, and where their contents would go. -/
structure Alike (m m₁ : Machine) : Prop where
  memory : m₁.memory = m.memory
  frames : m₁.frames = m.frames
  swap : m₁.swap = m.swap
  files : m₁.files = m.files
  mappings : m₁.mappings = m.mappings
  held : m₁.held = m.held
  owners : ∀ id phys ref, m.frames.find? id = some ⟨phys, [ref]⟩ →
    m₁.pages.find? ref = m.pages.find? ref

theorem refusesAll_congr {vs : List Victim} (memory : m₁.memory = m.memory) (swap : m₁.swap = m.swap)
    (files : m₁.files = m.files) (mappings : m₁.mappings = m.mappings) :
    m₁.RefusesAll vs ↔ m.RefusesAll vs := by
  induction vs generalizing m m₁ with
  | nil => exact Iff.rfl
  | cons v rest ih =>
      have wrote (backing : FileBacking) (phys : PhysPage) :
          m₁.writeBack backing phys = m.writeBack backing phys := by
        simp only [writeBack, file, files, memory]
      have dirty : m₁.core.dirty v.ref = m.core.dirty v.ref := by
        simp only [Core.dirty, core, mappings]
      have can : m₁.CanSave v ↔ m.CanSave v := by
        simp only [CanSave, swap, wrote, dirty]
      have after : m₁.filesAfter v = m.filesAfter v := by
        simp only [filesAfter, files, wrote, dirty]
      have later : (m₁.tried v).RefusesAll rest ↔ (m.tried v).RefusesAll rest :=
        ih memory swap after mappings
      exact and_congr can.not later

theorem Alike.victims (h : m.Alike m₁) : m₁.victims = m.victims := by
  have same (row : FrameId × Frame) (hrow : row ∈ m.frames.entries.rows) :
      m₁.victim? row.1 row.2 = m.victim? row.1 row.2 := by
    obtain ⟨id, frame⟩ := row
    have found : m.frames.find? id = some frame := Table.find?_eq_some.2 hrow
    unfold victim?
    rw [h.held]
    split
    · next ref howners =>
        rw [h.owners id frame.page ref (by rw [found, ← howners])]
    · rfl
  unfold Machine.victims
  rw [h.frames]
  exact congrArg Victim.sortByAge (List.filterMap_congr same)

/-- Unless a page has its frame for itself, there is a frame to be had. -/
def Provides (m : Machine) (ref : PageRef) : Prop :=
  (∀ id phys, m.frames.find? id ≠ some ⟨phys, [ref]⟩) → ∃ id m', allocateFrame m = .ok id m'

theorem Alike.provides (h : m.Alike m₁) (coherent : m.Coherent) (coherent₁ : m₁.Coherent)
    (provides : m.Provides ref) : m₁.Provides ref := by
  intro shared
  rw [h.frames] at shared
  have had := (allocateFrame_ok_iff coherent).1 (provides shared)
  rw [allocateFrame_ok_iff coherent₁, h.memory, h.victims,
    refusesAll_congr h.memory h.swap h.files h.mappings]
  exact had

end Machine

theorem Machine.Provides.touch {page' : Page} (provides : m.Provides ref) (coherent : m.Coherent)
    (found : m.core.pages.find? ref = some page) (h : DemandPaging.touch ref page m = .ok page' m') :
    m'.Provides ref := by
  intro shared
  have coherent' := coherent.steps (touch_step found h).1.steps
  obtain ⟨-, hm'⟩ := touch_ok h
  have frames : m'.frames = m.frames := by rw [hm']
  have alike : m.Alike m' := by
    subst hm'
    refine ⟨rfl, rfl, rfl, rfl, rfl, rfl, fun id phys r owned => ?_⟩
    refine Table.find?_insert_of_ne ?_
    rintro rfl
    exact shared id phys owned
  exact alike.provides coherent coherent' provides shared

theorem Machine.Provides.stops (provides : m.Provides ref)
    (shared : ∀ id phys, m.frames.find? id ≠ some ⟨phys, [ref]⟩) {E : Panic → Machine → Prop} :
    Stops E allocateFrame m := by
  obtain ⟨id, m', h⟩ := provides shared
  unfold Stops Ends
  rw [h]
  trivial

theorem resolve_timed (coherent : m.Coherent) (provides : m.Provides ref) :
    Stops OutOfTime (resolve ref write) m := by
  have hs := coherent.sound
  obtain ⟨n, accounted⟩ := coherent.accounted
  refine (page?_safe ref).next fun got _ h₁ => ?_
  obtain ⟨hgot, rfl⟩ := page?_core h₁
  cases got with
  | none => exact (Safe.pure _).stops
  | some page =>
      have found := hgot.symm
      dsimp only
      split
      · exact ((emit_safe _).bind fun _ => Safe.pure _).stops
      · cases resident : page.frame with
        | none =>
            refine claimVacant_ends (fun _ _ h => h) (provides.stops fun id phys owned => ?_) hs
              accounted found resident
            exact nomatch resident.symm.trans (hs.victim found owned)
        | some old =>
            dsimp only
            split
            · refine breakSharing_ends (fun _ _ h => h) (fun page' m₁ shared h₂ owned many => ?_) hs
                found resident
              refine (provides.touch coherent found h₂).stops fun id phys sole => many ?_
              have frames : m₁.frames = m.frames := by rw [(touch_ok h₂).2]
              rw [frames] at sole
              cases resident.symm.trans (hs.victim found sole)
              have same : m₁.core.frames.find? old = some ⟨phys, [ref]⟩ := by
                rw [← sole, ← frames]
                rfl
              rw [same] at owned
              cases owned
              rfl
            · refine touch_timed.bind fun page' m₁ h₂ _ => ?_
              obtain ⟨frame, owned, -⟩ := hs.owned.frame_of ref page old found resident
              have owned₁ : m₁.core.frames.find? old = some frame := by
                rw [(touch_core h₂).2]
                exact owned
              exact (physPage_ends owned₁).bind fun _ _ _ _ => (remap_safe _ _ _).stops

/-! The whole decision. -/

variable {addr : VirtAddr} {flags : FaultFlags}

/-- The fault of an access that the address space stands for: the address is a user's and the page is not
just read although it is there; the page exists and allows the access and comes to its contents, or the
stack may grow; and the page can be mapped. -/
def Machine.Legitimate (m : Machine) (s : SpaceId) (addr sp : VirtAddr) (flags : FaultFlags) : Prop :=
  (0 < addr.val ∧ addr.val < userSpaceEnd) ∧ ¬ (flags.present = true ∧ flags.write = false) ∧
    m.takesEntry s = true ∧
    match m.pages.find? ⟨s, addr.vpnFloor⟩ with
    | some page => (flags.write = true → page.writable = true) ∧ m.initializes page.kind = true
    | none => addr.InStack sp

theorem Machine.Provides.emit {event : Event} {u : Unit} (provides : m.Provides ref)
    (coherent : m.Coherent) (h : DemandPaging.emit event m = .ok u m') : m'.Provides ref := by
  have coherent' : m'.Coherent := coherent.same (emit_core h)
  obtain rfl := emit_ok.1 h
  exact Machine.Alike.provides (m := m) ⟨rfl, rfl, rfl, rfl, rfl, rfl, fun _ _ _ _ => rfl⟩ coherent
    coherent' provides

theorem Machine.Provides.add (provides : m.Provides ref) (coherent : m.Coherent)
    (absent : m.pages.find? ref = none)
    (coherent' : Machine.Coherent { m with pages := m.pages.insert ref page }) :
    Machine.Provides { m with pages := m.pages.insert ref page } ref := by
  refine Machine.Alike.provides (m := m) ⟨rfl, rfl, rfl, rfl, rfl, rfl, fun id phys r owned => ?_⟩
    coherent coherent' provides
  refine Table.find?_insert_of_ne ?_
  rintro rfl
  obtain ⟨page, found, -⟩ := coherent.sound.owned.page_of id _ _ owned List.mem_cons_self
  exact nomatch absent.symm.trans found

theorem resolveFault_timed (coherent : m.Coherent) (provides : m.Provides ⟨s, addr.vpnFloor⟩) :
    Stops OutOfTime (resolveFault s addr sp flags) m := by
  refine (emit_safe _).next fun _ m₁ h₁ => ?_
  have coherent₁ : m₁.Coherent := coherent.same (emit_core h₁)
  have provides₁ := provides.emit coherent h₁
  split
  · exact ((emit_safe _).bind fun _ => Safe.pure _).stops
  · split
    · exact ((emit_safe _).bind fun _ => Safe.pure _).stops
    · refine find_timed.bind fun got m₂ h₂ _ => ?_
      rcases find_ok h₂ with ⟨rfl, absent, rfl⟩ | ⟨page, page', found, rfl, touched⟩
      · dsimp only
        split
        · next grows =>
            refine (emit_safe _).next fun _ m₃ h₃ => ?_
            have coherent₃ : m₃.Coherent := coherent₁.same (emit_core h₃)
            have provides₃ := provides₁.emit coherent₁ h₃
            have absent₃ : m₃.pages.find? ⟨s, addr.vpnFloor⟩ = none := by
              rw [← emit_ok.1 h₃]
              exact absent
            have declared := declare_grown (VirtAddr.inStack_iff.1 grows) absent₃
            obtain ⟨ds, added, -⟩ := declare_core declared
            have coherent₄ := coherent₃.steps added
            exact .after declared (resolve_timed coherent₄ (provides₃.add coherent₃ absent₃ coherent₄))
        · exact ((emit_safe _).bind fun _ => Safe.pure _).stops
      · obtain ⟨stamped, -⟩ := touch_step found touched
        exact resolve_timed (coherent₁.steps stamped.steps) (provides₁.touch coherent₁ found touched)

theorem allowed_iff {writable : Bool} :
    (!write || writable) = true ↔ (write = true → writable = true) := by
  cases write <;> simp

theorem resolveFault_verdict (coherent : m.Coherent)
    (h : resolveFault s addr sp flags m = .ok done m') :
    done = true ↔ m.Legitimate s addr sp flags := by
  cases resolveFault_faulted h with
  | refused console answer reason =>
      rw [answer]
      refine iff_of_false Bool.false_ne_true ?_
      rintro ⟨user, faulty, -, there⟩
      rcases reason with notUser | presentRead | ⟨absent, outside⟩
      · exact (notUser user).elim
      · exact (faulty presentRead).elim
      · rw [absent] at there
        exact (outside there).elim
  | @there page page' m₁ user faulty found touched resolved =>
      have coherent₀ : Machine.Coherent { m with console := .pageFault addr flags :: m.console } :=
        coherent.same rfl
      obtain ⟨stamped, stands⟩ := touch_step (m := { m with console := _ }) found touched
      have verdict := resolve_verdict (coherent₀.steps stamped.steps) stands resolved
      have asked : m₁.takesEntry s = m.takesEntry s :=
        Machine.takesEntry_congr (by rw [(touch_ok touched).2]) s
      have comes : m₁.initializes page'.kind = m.initializes page.kind := by
        rw [(touch_ok touched).1]
        exact Machine.initializes_congr (by rw [(touch_ok touched).2]; rfl) _
      have writable : page'.writable = page.writable := by rw [(touch_ok touched).1]
      rw [asked, comes, writable] at verdict
      rw [verdict, Bool.and_eq_true, Bool.and_eq_true, allowed_iff, Machine.Legitimate, found]
      constructor
      · rintro ⟨allowed, taken, filled⟩
        exact ⟨user, faulty, taken, allowed, filled⟩
      · rintro ⟨-, -, taken, allowed, filled⟩
        exact ⟨allowed, taken, filled⟩
  | grown console user faulty absent grows resolved =>
      have coherent₀ : Machine.Coherent { m with console } := coherent.same rfl
      obtain ⟨ds, added, -⟩ := declare_core (declare_grown (s := s) (m := { m with console }) grows absent)
      have verdict := resolve_verdict (coherent₀.steps added) Table.find?_insert_self resolved
      have asked : done = m.takesEntry s := by
        rw [verdict]
        simp only [Page.fresh, Bool.or_true, Bool.true_and, Machine.initializes, Bool.and_true]
        exact Machine.takesEntry_congr rfl s
      rw [asked, Machine.Legitimate, absent]
      exact ⟨fun taken => ⟨user, faulty, taken, grows⟩, fun legitimate => legitimate.2.2.1⟩

theorem Core.Steps.same_pages {c c' : Core} {ds : List Deed} (h : Steps c ds c') (hs : c.Sound)
    (admits : ∀ d ∈ ds, d.Admits ref) (r : PageRef) :
    c'.pages.find? r = none ↔ c.pages.find? r = none := by
  constructor
  · intro gone
    by_contra there
    obtain ⟨page, found⟩ := Option.ne_none_iff_exists'.1 there
    have stays : .drop r ∉ ds := fun hd => by
      rcases admits _ hd with h | h
      · exact h
      · exact nomatch h
    obtain ⟨page', found', -⟩ := h.remains found stays
    exact nomatch gone.symm.trans found'
  · intro vacant
    refine h.vacant hs (fun d hd write => ?_) vacant (fun page hd => ?_) fun src whole hd => ?_
    · rcases admits d hd with h | rfl
      · cases d with
        | write => exact h
        | _ => exact write
      · exact write
    · rcases admits _ hd with h | h
      · exact h
      · exact nomatch h
    · rcases admits _ hd with h | h
      · exact h
      · exact nomatch h

theorem resolveFault_pages (coherent : m.Coherent) (h : resolveFault s addr sp flags m = .ok done m') :
    (∀ ref, (m.pages.find? ref).isSome → (m'.pages.find? ref).isSome) ∧
      ∀ ref page, m.pages.find? ref = none → m'.pages.find? ref = some page →
        ref = ⟨s, addr.vpnFloor⟩ ∧ addr.InStack sp ∧ page.writable = true ∧
          page.kind.pageType = .anon := by
  have none_iff {t : Table PageRef Page}
      (same : ∀ ref, m'.pages.find? ref = none ↔ t.find? ref = none) (ref : PageRef) :
      (m'.pages.find? ref).isSome ↔ (t.find? ref).isSome := by
    rw [Option.isSome_iff_ne_none, Option.isSome_iff_ne_none]
    exact (same ref).not
  cases resolveFault_faulted h with
  | refused console answer reason same =>
      subst same
      exact ⟨fun _ h => h, fun ref page absent found => nomatch absent.symm.trans found⟩
  | @there page page' m₁ user faulty found touched resolved =>
      obtain ⟨stamped, -⟩ := touch_step (m := { m with console := _ }) found touched
      obtain ⟨ds, run, admits⟩ := resolve_core (stamped.sound coherent.sound) resolved
      have same := (stamped.steps.trans run).same_pages coherent.sound admits
      exact ⟨fun ref => (none_iff same ref).2, fun ref page absent there =>
        nomatch ((same ref).2 absent).symm.trans there⟩
  | grown console user faulty absent grows resolved =>
      obtain ⟨ds, added, -⟩ := declare_core (declare_grown (s := s) (m := { m with console }) grows absent)
      obtain ⟨es, run, admits⟩ := resolve_core (added.sound coherent.sound) resolved
      have same := run.same_pages (added.sound coherent.sound) admits
      have old {ref : PageRef} (hne : ref ≠ ⟨s, addr.vpnFloor⟩) :
          (m.pages.insert ⟨s, addr.vpnFloor⟩ (.fresh s true (.uninit .anon none))).find? ref =
            m.pages.find? ref :=
        Table.find?_insert_of_ne hne
      refine ⟨fun ref there => (none_iff same ref).2 ?_, fun ref page missing found => ?_⟩
      · dsimp only [Machine.core]
        rw [old]
        · exact there
        · rintro rfl
          rw [absent] at there
          exact nomatch there
      · obtain rfl : ref = ⟨s, addr.vpnFloor⟩ := by
          by_contra hne
          exact nomatch ((same ref).2 ((old hne).trans missing)).symm.trans found
        have fresh := (Table.find?_insert m.pages ⟨s, addr.vpnFloor⟩ ⟨s, addr.vpnFloor⟩
          (.fresh s true (.uninit .anon none))).trans (if_pos rfl)
        obtain ⟨page', found', remains⟩ := run.remains fresh fun hd => by
          rcases admits _ hd with h | h
          · exact h
          · exact nomatch h
        cases found.symm.trans found'
        exact ⟨rfl, grows, remains.writable, remains.pageType⟩

/-- In a machine that has a frame to give, a fault is resolved exactly if the address space stands for the
access, whatever the address, the stack pointer and the flags are. No page comes to be or goes but the
one by which the stack grows, which is writable and anonymous. -/
theorem fault_resolved_iff_legitimate (passes : (Machine.fresh frames sectors files allocator).Passes m)
    (had : ∃ id m₁, allocateFrame m = .ok id m₁) (s : SpaceId) (addr sp : VirtAddr)
    (flags : FaultFlags) :
    Ends OutOfTime (resolveFault s addr sp flags) m fun done m' =>
      (done = true ↔ m.Legitimate s addr sp flags) ∧
      (∀ ref, (m.pages.find? ref).isSome → (m'.pages.find? ref).isSome) ∧
      ∀ ref page, m.pages.find? ref = none → m'.pages.find? ref = some page →
        ref = ⟨s, addr.vpnFloor⟩ ∧ addr.InStack sp ∧ page.writable = true ∧
          page.kind.pageType = .anon :=
  (resolveFault_timed passes.coherent fun _ => had).imp fun _ _ h _ =>
    ⟨resolveFault_verdict passes.coherent h, resolveFault_pages passes.coherent h⟩

/-- The only frame is in use. The stack grows by a push just below the stack pointer, for which the frame
is taken from its page, and not by an access one byte further down. -/
theorem fault_resolved_iff_legitimate_at_stack : ∃ m m' m'' page,
    (Machine.fresh 1 (some 8) []).Passes m ∧ (∃ id m₁, allocateFrame m = .ok id m₁) ∧
    m.memory.pool.free = 0 ∧
    resolveFault 0 (.ofBits 0x4747fff8) (.ofBits 0x47480000) (.ofParts false true true) m =
      .ok true m' ∧
    m.Legitimate 0 (.ofBits 0x4747fff8) (.ofBits 0x47480000) (.ofParts false true true) ∧
    m'.pages.find? ⟨0, ⟨0x4747f⟩⟩ = some page ∧ page.writable = true ∧ page.kind.pageType = .anon ∧
    resolveFault 0 (.ofBits 0x4747fff7) (.ofBits 0x47480000) (.ofParts false true true) m =
      .ok false m'' ∧
    ¬ m.Legitimate 0 (.ofBits 0x4747fff7) (.ofBits 0x47480000) (.ofParts false true true) := by
  have played : ((Machine.fresh 1 (some 8) []).serve [.declare 0 (.ofBits 4096) true .anon none,
      .claim 0 (.ofBits 4096)]).any (fun r => r.2.memory.pool.free == 0 &&
        ((r.2.pages.find? ⟨0, ⟨0x4747f⟩⟩).isNone && ((r.2.outcome allocateFrame).isSome &&
        ((r.2.outcome (resolveFault 0 (.ofBits 0x4747fff8) (.ofBits 0x47480000)
          (.ofParts false true true))).any (fun e =>
            e.1 && (e.2.pages.find? ⟨0, ⟨0x4747f⟩⟩).isSome) &&
        (r.2.outcome (resolveFault 0 (.ofBits 0x4747fff7) (.ofBits 0x47480000)
          (.ofParts false true true))).any fun e => !e.1)))) = true := by
    decide +kernel
  obtain ⟨⟨log, m⟩, hserved, hcheck⟩ := (Option.any_eq_true _ _).1 played
  simp only [Bool.and_eq_true, beq_iff_eq, Option.isNone_iff_eq_none] at hcheck
  obtain ⟨full, absent, had, grows, stays⟩ := hcheck
  obtain ⟨⟨id, m₁⟩, had⟩ := Option.isSome_iff_exists.1 had
  obtain ⟨⟨done, m'⟩, resolved, hcheck⟩ := (Option.any_eq_true _ _).1 grows
  obtain ⟨rfl, there⟩ := Bool.and_eq_true_iff.1 hcheck
  obtain ⟨page, found⟩ := Option.isSome_iff_exists.1 there
  obtain ⟨⟨done', m''⟩, refused, hno⟩ := (Option.any_eq_true _ _).1 stays
  obtain rfl : done' = false := by simpa using hno
  rw [Machine.outcome_eq_some] at had resolved refused
  have passes := (Machine.Reaches.refl.serve hserved).passes m.held
  obtain ⟨yes, -, added⟩ :=
    (fault_resolved_iff_legitimate passes ⟨id, m₁, had⟩ _ _ _ _).ok resolved
  obtain ⟨no, -⟩ := (fault_resolved_iff_legitimate passes ⟨id, m₁, had⟩ _ _ _ _).ok refused
  obtain ⟨-, -, writable, anon⟩ := added _ page absent found
  exact ⟨m, m', m'', page, passes, ⟨id, m₁, had⟩, full, resolved, yes.1 rfl, found, writable, anon,
    refused, fun legitimate => Bool.false_ne_true (no.2 legitimate)⟩

end DemandPaging
