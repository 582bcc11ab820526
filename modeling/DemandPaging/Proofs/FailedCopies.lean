import DemandPaging.Proofs.FailedClaims
import DemandPaging.Proofs.Returns

/-!
A write to a shared page when the page table refuses the entry of the copy. The page has left the
shared frame by then, and the frame of the copy is given back, so nothing has its bytes any more.
-/

namespace DemandPaging

open DemandPaging.Core
open Function (update)

variable {m m' n : Machine} {ref : PageRef} {page : Page} {id : FrameId} {frame : Frame} {s : SpaceId}
  {va sp : VirtAddr} {log : List Exchange} {console : List Event} {clock : Nat}

namespace Machine

/-- What the search for a frame comes to: nothing as long as the pool has one, and else the eviction of
a page. -/
inductive MakesRoom (m : Machine) : Machine → Prop where
  | pooled (free : 0 < m.memory.pool.free) : m.MakesRoom m
  | evicted {id : FrameId} {n : Machine} (empty : m.memory.pool.free = 0)
      (evicts : m.Evicts m.victims (some id) n) : m.MakesRoom n

structure SameBut (ref : PageRef) (m m' : Machine) : Prop where
  swap : m'.swap = m.swap
  files : m'.core.files = m.core.files
  others : ∀ r, r ≠ ref → m.Undisturbed m' r

theorem SameBut.trans {m₁ : Machine} (h : SameBut ref m m₁) (h' : SameBut ref m₁ m') :
    SameBut ref m m' where
  swap := h'.swap.trans h.swap
  files := h'.files.trans h.files
  others r hr := ⟨(h'.others r hr).1.trans (h.others r hr).1,
    (h'.others r hr).2.1.trans (h.others r hr).2.1, (h'.others r hr).2.2.trans (h.others r hr).2.2⟩

theorem SameBut.of_page {pages : Table PageRef Page}
    (others : ∀ r, r ≠ ref → pages.find? r = m.pages.find? r) :
    SameBut ref m { m with console, clock, pages } where
  swap := rfl
  files := rfl
  others r hr := ⟨others r hr, rfl, congrArg (Option.map (m.core.lookOf r)) (others r hr)⟩

theorem SameBut.take {kind : PageKind} {v : Victim} {pages : Table PageRef Page}
    (others : ∀ r, r ≠ ref → pages.find? r = m.pages.find? r) :
    SameBut ref (m.take v kind) (Machine.take { m with console, clock, pages } v kind) := by
  refine .of_page (m := m.take v kind) fun r hr => ?_
  change (pages.insert v.ref _).find? r = (m.pages.insert v.ref _).find? r
  rw [Table.find?_insert, Table.find?_insert, others r hr]

theorem MakesRoom.before {page' : Page}
    (shares : ∀ id phys, m.frames.find? id ≠ some ⟨phys, [ref]⟩)
    (h : MakesRoom { m with console, clock, pages := m.pages.insert ref page' } n) :
    ∃ n₀, m.MakesRoom n₀ ∧ SameBut ref n₀ n := by
  have others (r : PageRef) (hr : r ≠ ref) :
      (m.pages.insert ref page').find? r = m.pages.find? r := Table.find?_insert_of_ne hr
  have alike : m.Alike { m with console, clock, pages := m.pages.insert ref page' } := by
    refine ⟨rfl, rfl, rfl, rfl, rfl, rfl, fun id phys r owned => others r ?_⟩
    rintro rfl
    exact shares id phys owned
  cases h with
  | pooled free => exact ⟨m, .pooled free, .of_page others⟩
  | @evicted id n empty evicts =>
      rw [alike.victims] at evicts
      generalize hgot : some id = got at evicts
      cases evicts with
      | none => exact nomatch hgot
      | @some refused rest v kind swap files console' split refuses can saved =>
          cases hgot
          rw [triedAll_view] at can saved
          exact ⟨_, .evicted empty (.some console' split (refusesAll_view.1 refuses) can saved.of_view),
            .take (m := { m with swap, files, console := console' }) others⟩

end Machine

theorem Move.lose_looks {L L' : Looks} {F F' : Files} (h : Move L F [.lose ref] L' F') :
    ∃ look, L ref = some look ∧ L' = update L ref (some ⟨look.kind, look.writable, none, false⟩) := by
  cases h with
  | lose found => exact ⟨_, found, rfl⟩
  | fill _ _ settles => exact (settles _ List.mem_cons_self).elim

/-- The page is still there, but memory has nothing of it and no entry says that it was written. Nothing
else has changed, unless a page was evicted for the copy. -/
structure Machine.Forgets (m : Machine) (ref : PageRef) (page : Page) (m' : Machine) : Prop where
  steps : Steps m.core [.lose ref] m'.core
  look : m'.core.looks ref = some ⟨page.kind, page.writable, none, false⟩
  room : ∃ n, m.MakesRoom n ∧ n.SameBut ref m'

theorem Core.Parts.lost_sameBut {old new : FrameId} {ds : List Deed}
    (h : m.core.Parts ref page old new false ds m'.core) (hs : m.core.Sound)
    (found : m.core.pages.find? ref = some page) (resident : page.frame = some old) :
    ds = [.lose ref] ∧ m'.core.looks ref = some ⟨page.kind, page.writable, none, false⟩ ∧
      m.SameBut ref m' := by
  have step := h.step found resident
  suffices lost : ds = [.lose ref] ∧ m'.core.swap = m.core.swap ∧ m'.core.files = m.core.files ∧
      (∀ r, r ≠ ref → m'.core.pages.find? r = m.core.pages.find? r) ∧
        ∀ r, r ≠ ref → m'.core.mappings.find? r = m.core.mappings.find? r by
    obtain ⟨rfl, swap, files, pages, mappings⟩ := lost
    obtain ⟨look, hlook, hlooks⟩ := (step.move hs fun ⟨d, hd, hw⟩ => by
      rw [List.mem_singleton.1 hd] at hw
      exact hw.elim).lose_looks
    rw [looks_found found] at hlook
    cases hlook
    refine ⟨rfl, ?_, swap, files, fun r hr => ⟨pages r hr, mappings r hr, ?_⟩⟩
    · rw [hlooks, Function.update_self]
      rfl
    · rw [hlooks, Function.update_of_ne hr]
  generalize m'.core = c' at h
  cases h with
  | @lost shared phys k owned many free refused =>
      obtain ⟨frames, memory, left, parted, -⟩ := m.core.diverge_eq ref old shared phys
      rw [parted, hs.entryRef found]
      exact ⟨rfl, rfl, rfl, fun _ => Table.find?_insert_of_ne, fun _ => Table.find?_erase_of_ne⟩

theorem Machine.Coherent.makesRoom {new : FrameId} (coherent : m.Coherent)
    (h : allocateFrame m = .ok new m') : ∃ n, m.MakesRoom n ∧ n.SameBut ref m' := by
  rcases allocateFrame_ok coherent h with ⟨phys, memory, console, taken, -, rfl⟩ | ⟨empty, evicts⟩
  · have free := Memory.free_of_acquired taken
    exact ⟨m, .pooled (by omega), rfl, rfl, fun r _ =>
      ⟨rfl, rfl, congrFun (coherent.sound.looks_acquire taken) r⟩⟩
  · exact ⟨m', .evicted (Memory.free_of_acquire empty) evicts, rfl, rfl, fun _ _ => ⟨rfl, rfl, rfl⟩⟩

theorem Core.Sound.shares (hs : m.core.Sound) (resident : page.frame = some id)
    (found : m.core.pages.find? ref = some page) (owned : m.core.frames.find? id = some frame)
    (many : frame.owners.length ≠ 1) (i : FrameId) (phys : PhysPage) :
    m.frames.find? i ≠ some ⟨phys, [ref]⟩ := by
  intro alone
  cases resident.symm.trans (hs.victim found alone)
  cases owned.symm.trans alone
  exact many rfl

theorem breakSharing_refused (coherent : m.Coherent) (found : m.core.pages.find? ref = some page)
    (resident : page.frame = some id) (owned : m.core.frames.find? id = some frame)
    (many : frame.owners.length ≠ 1) (h : breakSharing ref page id m = .ok false m') :
    m.Forgets ref page m' := by
  have hs := coherent.sound
  cases breakSharing_breaks hs found resident h with
  | alone owned' sole =>
      cases owned.symm.trans owned'
      exact (many sole).elim
  | @parted m₁ m₂ new ds touched taken found₂ parts =>
      have stamp : Step m.core [] m₁.core := touched ▸ .touch found
      have coherent₁ : m₁.Coherent := coherent.steps stamp.steps
      have steps := (allocateFrame_core coherent₁.sound taken).1
      have step := parts.step found₂ resident
      obtain ⟨rfl, look, same⟩ := parts.lost_sameBut (steps.sound coherent₁.sound) found₂ resident
      obtain ⟨n₁, room, same₁⟩ : ∃ n₁, m₁.MakesRoom n₁ ∧ n₁.SameBut ref m₂ := coherent₁.makesRoom taken
      subst touched
      obtain ⟨n, room, same₀⟩ := room.before (hs.shares resident found owned many)
      exact ⟨(stamp.steps.trans steps).trans step.steps, look, n, room, (same₀.trans same₁).trans same⟩

theorem resolve_refused (coherent : m.Coherent) (found : m.core.pages.find? ref = some page)
    (writable : page.writable = true) (resident : page.frame = some id)
    (owned : m.core.frames.find? id = some frame) (many : frame.owners.length ≠ 1)
    (h : resolve ref true m = .ok false m') : m.Forgets ref page m' := by
  have hcow := coherent.sound.cow_of_many found resident owned many
  rcases resolve_write found writable h with ⟨away, -⟩ | ⟨-, id', resident', run⟩ | ⟨alone, -⟩
  · exact nomatch away.symm.trans resident
  · cases Option.some.inj (resident'.symm.trans resident)
    exact breakSharing_refused coherent found resident owned many run
  · exact nomatch alone.symm.trans hcow

theorem resolveFault_refused {flags : FaultFlags} (coherent : m.Coherent)
    (found : m.core.pages.find? ⟨s, va.vpnFloor⟩ = some page) (writable : page.writable = true)
    (resident : page.frame = some id) (owned : m.core.frames.find? id = some frame)
    (many : frame.owners.length ≠ 1) (user : va.isUser = true) (write : flags.write = true)
    (h : resolveFault s va sp flags m = .ok false m') :
    m.Forgets ⟨s, va.vpnFloor⟩ page m' := by
  obtain ⟨page', m₁, touched, resolved⟩ := resolveFault_write found user write h
  obtain ⟨stamped, found₁⟩ := touch_step (m := { m with console := _ }) (by exact found) touched
  obtain ⟨rfl, rfl⟩ := touch_ok touched
  obtain ⟨steps, look, n₁, room, same⟩ :=
    resolve_refused (coherent.steps stamped.steps) found₁ writable resident owned many resolved
  obtain ⟨n, room, same₀⟩ := room.before (coherent.sound.shares resident found owned many)
  exact ⟨stamped.steps.trans steps, look, n, room, same₀.trans same⟩

theorem Core.made_zero_anon {c : Core} (hu : page.kind.isUninit = false)
    (anon : page.kind.pageType = .anon) :
    (c.cell page).made PageBytes.zero = .live PageBytes.zero := by
  unfold Core.cell
  cases hk : page.kind with
  | uninit target init =>
      rw [hk] at hu
      exact nomatch hu
  | anon slot => rfl
  | file backing =>
      rw [hk] at anon
      exact nomatch anon

namespace Machine

theorem MakesRoom.stays (h : m.MakesRoom n) (hs : m.core.Sound) (found : n.pages.find? ref = some page)
    (resident : page.frame = some id) : n.core.looks ref = m.core.looks ref := by
  cases h with
  | pooled => rfl
  | @evicted id' _ empty evicts =>
      generalize hgot : some id' = got at evicts
      cases evicts with
      | none => exact nomatch hgot
      | @some refused rest v kind swap files console split =>
          have stands : v.Stands m.core :=
            victims_stand (split ▸ List.mem_append_right _ List.mem_cons_self)
          refine looks_taken hs stands ?_
          rintro rfl
          cases Table.find?_insert_self.symm.trans found
          exact nomatch resident

theorem Forgets.flat (h : m.Forgets ref page m') (hs : m.core.Sound) :
    m'.core.flat = Deed.applyAll m.core.flat [.lose ref] :=
  h.steps.flat hs fun ⟨d, hd, hw⟩ => by
    rw [List.mem_singleton.1 hd] at hw
    exact hw.elim

theorem Forgets.live (h : m.Forgets ref page m') (hs : m.core.Sound)
    (found : m.core.pages.find? ref = some page) (used : page.kind.isUninit = false)
    (anon : page.kind.pageType = .anon) : m'.core.flat ref = some (.live PageBytes.zero) := by
  rw [h.flat hs]
  refine (Function.update_self _ _ _).trans ?_
  rw [flat_found found, ← made_zero_anon used anon]
  rfl

theorem Forgets.keeps {r : PageRef} (h : m.Forgets ref page m') (hs : m.core.Sound) (hr : r ≠ ref)
    (away : ∀ p backing, m'.pages.find? r = some p → p.frame = none → p.kind = .file backing →
      m'.core.contents r = m.core.contents r) : m'.core.contents r = m.core.contents r := by
  have flat : m'.core.flat r = m.core.flat r := by
    rw [h.flat hs]
    exact Function.update_of_ne hr _ _
  obtain ⟨steps, -, n, room, same⟩ := h
  cases found : m.core.pages.find? r with
  | none =>
      rw [flat_vacant found, flat_eq_none] at flat
      rw [contents_vacant found, contents_vacant flat]
  | some p₀ =>
      obtain ⟨p, found', remains⟩ := steps.remains found (by simp)
      have used := remains.isUninit fun d hd settles => by
        rw [List.mem_singleton.1 hd] at settles
        exact settles
      cases kind : p.kind with
      | uninit =>
          have unused : p.kind.isUninit = true := by rw [kind]; rfl
          rw [contents_unused found' unused, contents_unused found (used ▸ unused)]
      | anon =>
          have live : m'.core.flat r = some (.live (m'.core.bytes p)) := by
            rw [flat_found found', cell, kind]
          rw [contents_live live, contents_live (flat ▸ live)]
      | file backing =>
          have used' : p.kind.isUninit = false := by rw [kind]; rfl
          cases resident : p.frame with
          | none => exact away p backing found' resident kind
          | some i =>
              obtain ⟨pages, -, looks⟩ := same.others r hr
              have held := held_found found'
              have same_held : m'.core.held? r = m.core.held? r := by
                rw [held?, looks, room.stays hs (pages ▸ found') resident, held?]
              rw [contents_used found' used', contents_used found (used ▸ used'), ← same_held, held,
                resident]
              rfl

theorem Forgets.contents_iff {bytes : PageBytes} (h : m.Forgets ref page m') (hs : m.core.Sound)
    (found : m.core.pages.find? ref = some page) (used : page.kind.isUninit = false)
    (held : m.core.held? ref = some bytes) : m'.core.contents = m.core.contents ↔
      m'.core.stored page.kind = bytes ∧ ∀ r p backing, r ≠ ref → m'.pages.find? r = some p →
        p.frame = none → p.kind = .file backing → some (m'.core.stored p.kind) = m.core.contents r := by
  have left : m'.core.contents ref = some (m'.core.stored page.kind) := by
    rw [contents, h.look, Option.bind_some, used]
    rfl
  have had : m.core.contents ref = some bytes := by
    rw [contents_used found used, held]
    rfl
  have shown {p : Page} {backing : FileBacking} (kind : p.kind = .file backing) :
      p.kind.isUninit = false := by
    rw [kind]
    rfl
  constructor
  · intro same
    refine ⟨?_, fun r p backing hr there away kind => ?_⟩
    · rw [same, had] at left
      exact (Option.some.inj left).symm
    · rw [← same]
      exact (contents_away there away (shown kind)).symm
  · rintro ⟨same, others⟩
    funext r
    by_cases hr : r = ref
    · rw [hr, left, had, same]
    · exact h.keeps hs hr fun p backing there away kind =>
        (contents_away there away (shown kind)).trans (others r p backing hr there away kind)

end Machine

def Operation.Grants : Machine → Operation → Prop
  | _, .setInstalls _ _ => True
  | _, _ => False

theorem Run.grants {later : List Exchange} (run : Run Operation.Grants m later m') :
    ∃ grants, m'.core = { m.core with grants } := by
  induction run with
  | nil => exact ⟨_, rfl⟩
  | @turn m₁ m₂ _ _ run turn all ih =>
      obtain ⟨grants, hm⟩ := ih
      cases turn with
      | @served _ op a held whole answered =>
          cases op with
          | setInstalls s installs =>
              obtain ⟨_, m₃, h₁, h⟩ := bind_ok.1 answered
              obtain ⟨rfl, rfl⟩ := pure_ok.1 h
              have hcore : ∃ grants, m₃.core = { m₁.core with grants } := by
                rw [← modify_ok.1 h₁]
                exact ⟨_, rfl⟩
              obtain ⟨grants', hm₃⟩ := hcore
              exact ⟨grants', by rw [hm₃, hm]⟩
          | _ => exact (all _ List.mem_cons_self).elim
      | undone => exact (all _ List.mem_cons_self).elim

/-- When a write to a shared page fails because the page table refuses the entry of the copy, memory has
nothing of the page any more. All others are as they were, unless one was evicted for the copy. So all
contents are what they were exactly if what is left of the page, which is nothing but zero for an anonymous
page and what the file has for a file page, is what memory had of it, and file pages that are out of memory
have in their files what they had before. Once page tables grant entries again, the page keeps these
bytes, and shows no others, exactly if they are there of it whenever it comes back. -/
theorem failed_copy_kept_iff {frames : Nat} {sectors : Option Nat} {files : List File}
    {allocator : Allocator}
    {held : List PageRef} {flags : FaultFlags} {other : PageRef} {page' : Page}
    (reached : Run (fun _ => Operation.Proper) (.fresh frames sectors files allocator) log m)
    (found : m.pages.find? ⟨s, va.vpnFloor⟩ = some page) (writable : page.writable = true)
    (resident : page.frame = some id) (apart : other ≠ ⟨s, va.vpnFloor⟩)
    (found' : m.pages.find? other = some page') (shared : page'.frame = some id)
    (user : va.isUser = true) (write : flags.write = true)
    (failed : (Operation.fault s va sp flags).perform { m with held } = .ok (.flag false) m') :
    ∃ bytes, m.core.held? ⟨s, va.vpnFloor⟩ = some bytes ∧
      m'.core.looks ⟨s, va.vpnFloor⟩ = some ⟨page.kind, true, none, false⟩ ∧
      (∃ n, Machine.MakesRoom { m with held } n ∧ n.SameBut ⟨s, va.vpnFloor⟩ m') ∧
      (m'.core.contents = m.core.contents ↔ m'.core.stored page.kind = bytes ∧
        ∀ r p backing, r ≠ ⟨s, va.vpnFloor⟩ → m'.pages.find? r = some p → p.frame = none →
          p.kind = .file backing → some (m'.core.stored p.kind) = m.core.contents r) ∧
      ∀ later m₁, Run Operation.Grants m' later m₁ → m₁.core.Calm →
        (∀ backing, page.kind = .file backing → (m₁.core.files backing.file).ReadsWhole) →
        ∀ log' m₂, Run (fun _ => Operation.Spares ⟨s, va.vpnFloor⟩) m₁ log' m₂ →
          (∃ hops, Traced ⟨s, va.vpnFloor⟩ m₁ log' hops m₂) ∧
          ∀ hops, Traced ⟨s, va.vpnFloor⟩ m₁ log' hops m₂ →
            (∀ x, ((∀ hop ∈ hops, hop.2.Holds ⟨s, va.vpnFloor⟩ x) ↔
                ∀ hop ∈ hops, Refetches ⟨s, va.vpnFloor⟩ x hop) ∧
              ((∀ hop ∈ hops, Refetches ⟨s, va.vpnFloor⟩ x hop) → ∀ sp' got,
                (.read s va.pageFloor pageSize sp', .bytes (some got)) ∈ log' → got = x.toArray)) ∧
            (page.kind.pageType = .anon →
              ∀ hop ∈ hops, Refetches ⟨s, va.vpnFloor⟩ PageBytes.zero hop) := by
  have settled := reached.settled (fun _ _ h => h) (Machine.fresh_settled frames sectors files allocator)
  have coherent := (reached.reaches.passes held).coherent
  have hs := settled.sound
  have proper : (Operation.fault s va sp flags).Proper := trivial
  have settled' : m'.Settled := settled.served proper rfl failed
  obtain ⟨frame, owned, -⟩ := hs.owned.frame_of _ _ _ found resident
  have many := hs.many_of_shared found resident owned apart found' shared
  obtain ⟨_, m₁, h₁, h⟩ := bind_ok.1 failed
  obtain ⟨hflag, rfl⟩ := pure_ok.1 h
  cases hflag
  have forgets := resolveFault_refused coherent found writable resident owned many user write h₁
  have used := hs.used found resident
  have hheld := held_resident (c := m.core) found resident owned
  have look := forgets.look
  rw [writable] at look
  refine ⟨_, hheld, look, forgets.room, forgets.contents_iff hs found used hheld,
    fun later m₂ mended calm whole log' m₃ run => ?_⟩
  obtain ⟨grants, hgrants⟩ := mended.grants
  have settled₂ : m₂.Settled := @Machine.Settled.outside m₁ m₂ m₁.core.files grants settled' hgrants
  have look₂ : m₂.core.looks ⟨s, va.vpnFloor⟩ = some ⟨page.kind, true, none, false⟩ := by
    rw [hgrants]
    exact look
  obtain ⟨hops, traced⟩ := run.traced settled₂.sound
  refine ⟨⟨hops, traced⟩, fun hops traced => ?_⟩
  have hiff (x : PageBytes) :
      (∀ hop ∈ hops, hop.2.Holds ⟨s, va.vpnFloor⟩ x) ↔ ∀ hop ∈ hops, Core.Refetches ⟨s, va.vpnFloor⟩ x hop :=
    traced.refetches_iff settled₂ calm look₂ used whole
  refine ⟨fun x => ⟨hiff x, fun refetches sp' got read => ?_⟩, fun anon => (hiff _).1 ?_⟩
  · exact traced.reads_page settled₂.sound ((hiff x).2 refetches) read
  · refine traced.live settled₂ calm ?_
    rw [hgrants]
    exact forgets.live hs found used anon

theorem Machine.serve_setInstalls {installs : Replies Bool}
    (h : m.serve [.setInstalls s installs] = some (log, m')) (s' : SpaceId) :
    m'.core.grants s' = if s = s' then installs.reply else m.core.grants s' := by
  obtain ⟨a, m₁, rest, first, hrest, rfl⟩ := Machine.serve_cons h
  cases Option.some.inj hrest
  cases first with
  | served held whole answered =>
      obtain ⟨_, m₂, h₁, h⟩ := bind_ok.1 answered
      obtain ⟨rfl, rfl⟩ := pure_ok.1 h
      rw [← modify_ok.1 h₁]
      exact Machine.grants_installs _ installs s'

/-- A byte is written to a page, which is then copied. The write to the shared page that comes next
is refused its entry, and when the page table takes entries again the byte reads as zero. -/
theorem failed_copy_lost : ∃ log m page bytes m' later m₁ log' m₂ got,
    Run (fun _ => Operation.Proper) (.fresh 4 none []) log m ∧
      m.pages.find? ⟨0, ⟨1⟩⟩ = some page ∧
      (Operation.fault 0 (.ofBits 4096) (.ofBits 0) (.ofParts true true true)).perform
        { m with held := [] } = .ok (.flag false) m' ∧
      m.core.held? ⟨0, ⟨1⟩⟩ = some bytes ∧ bytes.byteAt 0 = 7 ∧ m'.core.contents ≠ m.core.contents ∧
      Run Operation.Grants m' later m₁ ∧ m₁.core.Calm ∧
      Run (fun _ => Operation.Spares ⟨0, ⟨1⟩⟩) m₁ log' m₂ ∧
      (.read 0 (.ofBits 4096) pageSize (.ofBits 0), .bytes (some got)) ∈ log' ∧
      got ≠ bytes.toArray := by
  have played : ((Machine.fresh 4 none []).serve [.newSpace,
      .declare 0 (.ofBits 4096) true .anon none, .write 0 (.ofBits 4096) #[7] (.ofBits 0),
      .fork 0 1 .asStored]).any (fun r₀ =>
        (r₀.2.serve [.setInstalls 0 (.budget (some 0))]).any fun r =>
          decide ((r.2.pages.find? ⟨0, ⟨1⟩⟩).map (fun page => (page.writable, page.frame, page.kind)) =
              some (true, some ⟨0⟩, .anon none) ∧
            (r.2.pages.find? ⟨1, ⟨1⟩⟩).map (·.frame) = some (some ⟨0⟩)) &&
          ((r.2.core.held? ⟨0, ⟨1⟩⟩).any (fun bytes => bytes.byteAt 0 == 7) &&
            (r.2.ask [] (.fault 0 (.ofBits 4096) (.ofBits 0) (.ofParts true true true))).any fun r₁ =>
              r₁.1.flag? == some false && (r₁.2.serve [.setInstalls 0 (.always true)]).any fun r₂ =>
                (r₂.2.ask [] (.read 0 (.ofBits 4096) pageSize (.ofBits 0))).any fun r₃ =>
                  r₃.1.bytes?.isSome)) = true := by
    decide +kernel
  obtain ⟨⟨log, m₀⟩, hserved₀, hcheck⟩ := (Option.any_eq_true _ _).1 played
  obtain ⟨⟨log', m⟩, hserved, hcheck⟩ := (Option.any_eq_true _ _).1 hcheck
  simp only [Bool.and_eq_true] at hcheck
  obtain ⟨hpages, hheld, hcheck⟩ := hcheck
  obtain ⟨hpage, hpage'⟩ := of_decide_eq_true hpages
  obtain ⟨page, found, hpage⟩ := Option.map_eq_some_iff.1 hpage
  obtain ⟨page', found', shared⟩ := Option.map_eq_some_iff.1 hpage'
  obtain ⟨writable, resident, kind⟩ : page.writable = true ∧ page.frame = some ⟨0⟩ ∧
    page.kind = .anon none := by simpa using hpage
  obtain ⟨⟨a, m'⟩, asked, hcheck⟩ := (Option.any_eq_true _ _).1 hcheck
  simp only [Bool.and_eq_true, beq_iff_eq] at hcheck
  obtain ⟨hflag, hcheck⟩ := hcheck
  obtain rfl := Answer.flag?_eq_some.1 hflag
  have failed := Machine.ask_eq_some.1 asked
  obtain ⟨⟨later, m₁⟩, hserved', hcheck⟩ := (Option.any_eq_true _ _).1 hcheck
  obtain ⟨⟨a, m₂⟩, asked', hread⟩ := (Option.any_eq_true _ _).1 hcheck
  obtain ⟨got, hgot⟩ := Option.isSome_iff_exists.1 hread
  obtain rfl := Answer.bytes?_eq_some.1 hgot
  have read := Machine.ask_eq_some.1 asked'
  have reached₀ : Run (fun _ => Operation.Proper) (.fresh 4 none []) ([] ++ log) m₀ :=
    .serve .nil (by simp [Operation.Proper]) hserved₀
  have reached := reached₀.serve (by simp [Operation.Proper]) hserved
  have mended : Run Operation.Grants m' ([] ++ later) m₁ :=
    .serve .nil (by simp [Operation.Grants]) hserved'
  obtain ⟨hs, hg⟩ := Machine.fresh_settled 4 none []
  obtain ⟨calm₀, -⟩ := Machine.serve_quiet (by simp [Operation.Regular]) hserved₀ hs hg
    fun _ _ => rfl
  have regular : (Operation.fault 0 (.ofBits 4096) (.ofBits 0)
    (.ofParts true true true)).Regular := trivial
  obtain ⟨_, hsteps, -⟩ := Operation.perform_held regular
    (reached.settled (fun _ _ h => h) ⟨hs, hg⟩).sound failed
  have calm : m₁.core.Calm := by
    intro s k
    rw [Machine.serve_setInstalls hserved', hsteps.grants, Machine.serve_setInstalls hserved]
    split
    · rfl
    · exact calm₀ s k
  have run : Run (fun _ => Operation.Spares ⟨0, ⟨1⟩⟩) m₁
      ([] ++ [(.read 0 (.ofBits 4096) pageSize (.ofBits 0), .bytes (some got))]) m₂ :=
    .turn .nil (.served [] rfl read) (by simp [Operation.Spares])
  have hread : (Operation.read 0 (.ofBits 4096) pageSize (.ofBits 0), Answer.bytes (some got)) ∈
      [] ++ [(.read 0 (.ofBits 4096) pageSize (.ofBits 0), .bytes (some got))] := List.mem_cons_self
  obtain ⟨bytes, hbytes, -, -, contents, comes⟩ := failed_copy_kept_iff reached found writable resident
    (by decide) found' shared (by decide) (by decide) failed
  have hbyte : bytes.byteAt 0 = 7 := by
    rw [show m.core.held? ⟨0, ⟨1⟩⟩ = some bytes from hbytes] at hheld
    exact beq_iff_eq.1 hheld
  have hzero : PageBytes.zero ≠ bytes := by
    rintro rfl
    rw [PageBytes.byteAt_zero] at hbyte
    exact absurd hbyte (by decide)
  obtain ⟨⟨hops, traced⟩, kept⟩ := comes _ m₁ mended calm
    (fun backing file => PageKind.noConfusion (kind.symm.trans file)) _ m₂ run
  obtain ⟨shows, zero⟩ := kept hops traced
  have hgot : got = PageBytes.zero.toArray := (shows _).2 (zero (by rw [kind]; rfl)) _ _ hread
  refine ⟨_, m, page, bytes, m', _, m₁, _, m₂, got, reached, found, failed, hbytes, hbyte, fun same => ?_,
    mended, calm, run, hread, fun hsame => ?_⟩
  · have left := (contents.1 same).1
    rw [kind] at left
    exact hzero left
  · rw [hgot, PageBytes.toArray_inj] at hsame
    exact hzero hsame

end DemandPaging
