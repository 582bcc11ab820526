import DemandPaging.Proofs.Lifetimes
import DemandPaging.Proofs.Sights
import DemandPaging.Proofs.Runs

/-!
Copies of file pages. A copy shares its frame with the page that was copied, until one of them is
written to. The copy counts as clean, though, even if the file does not have these bytes yet, so it
is dropped when it leaves memory and comes back as the file has it then.
-/

namespace DemandPaging

open DemandPaging.Core
open Function (update)

/-- The deeds that change what a page holds at the will of its user. -/
def Deed.Alters (ref : PageRef) : Deed → Prop
  | write r _ _ | drop r => r = ref
  | _ => False

theorem Loads.of_shown {F : Files} {backing : FileBacking} {kind kind' : PageKind} {bytes : PageBytes}
    (h : Loads F kind kind' bytes)
    (shown : kind = .file backing ∨ kind = .uninit (.file backing) none) : kind' = .file backing ∧
      ∃ got, (F backing.file).Delivers backing.offset backing.readBytes got ∧
        bytes = PageBytes.ofArray got := by
  rcases shown with rfl | rfl
  · cases h with
    | anon anon => exact nomatch anon
    | file got_of => exact ⟨rfl, _, got_of, rfl⟩
  · cases h with
    | anon anon => exact nomatch anon
    | newFile got_of => exact ⟨rfl, _, got_of, rfl⟩

theorem Saved.of_file {F F' : Files} {backing : FileBacking} {kind : PageKind} {bytes : PageBytes}
    {dirty : Bool} (h : Saved F bytes (.file backing) dirty kind F') : kind = .file backing := by
  cases h <;> rfl

/-- What memory holds of a page of the file it held before, or it has been read from the file. -/
def FileBacking.Renews (backing : FileBacking) (F : Files) (before now : Option PageBytes) : Prop :=
  ∀ bytes, now = some bytes → before = some bytes ∨ (before = none ∧
    ∃ got, (F backing.file).Delivers backing.offset backing.readBytes got ∧
      bytes = PageBytes.ofArray got)

namespace Move

variable {L L' : Looks} {F F' : Files} {ds : List Deed} {ref : PageRef} {look : Look}
  {backing : FileBacking}

theorem keeps_shown (move : Move L F ds L' F') (found : L ref = some look)
    (kind : look.kind = .file backing ∨ look.kind = .uninit (.file backing) none)
    (spared : ∀ d ∈ ds, ¬ d.Alters ref) :
    ∃ look', L' ref = some look' ∧ (look'.kind = look.kind ∨ look'.kind = .file backing) ∧
      backing.Renews F look.content look'.content := by
  have same (h : L' ref = L ref) : ∃ look', L' ref = some look' ∧
      (look'.kind = look.kind ∨ look'.kind = .file backing) ∧
        backing.Renews F look.content look'.content :=
    ⟨look, h.trans found, .inl rfl, fun _ h => .inl h⟩
  have other {r : PageRef} {new : Option Look} (hr : ref ≠ r) : update L r new ref = L ref :=
    Function.update_of_ne hr _ _
  cases move with
  | still | chart | spoil | read => exact same rfl
  | @add r _ _ vacant =>
      refine same (other ?_)
      rintro rfl
      rw [found] at vacant
      exact nomatch vacant
  | @evict r old _ _ _ _ _ found' saved =>
      by_cases hr : ref = r
      · subst hr
        rw [found] at found'
        cases found'
        rcases kind with rfl | rfl
        · exact ⟨_, Function.update_self _ _ _, .inr saved.of_file, nofun⟩
        · exact nomatch saved
      · exact same (other hr)
  | @fill r old _ _ _ _ found' loads =>
      by_cases hr : ref = r
      · subst hr
        rw [found] at found'
        cases found'
        obtain ⟨hkind, hgot⟩ := loads.of_shown kind
        refine ⟨_, Function.update_self _ _ _, .inr hkind, fun bytes hbytes => .inr ⟨rfl, ?_⟩⟩
        cases hbytes
        exact hgot
      · exact same (other hr)
  | @fail r target init kept w found' =>
      refine same (other ?_)
      rintro rfl
      rw [found] at found'
      cases found'
      rcases kind with kind | kind <;> exact nomatch kind
  | @lose r old found' =>
      by_cases hr : ref = r
      · subst hr
        rw [found] at found'
        cases found'
        exact ⟨_, Function.update_self _ _ _, .inl rfl, nofun⟩
      · exact same (other hr)
  | @share _ r _ _ _ _ _ _ vacant =>
      refine same (other ?_)
      rintro rfl
      rw [found] at vacant
      exact nomatch vacant
  | write =>
      refine same (other fun hr => ?_)
      exact spared _ List.mem_cons_self hr.symm
  | drop | dropWriting =>
      refine same (other fun hr => ?_)
      exact spared _ List.mem_cons_self hr.symm

theorem keeps_file (move : Move L F ds L' F') (found : L ref = some look)
    (kind : look.kind = .file backing) (spared : ∀ d ∈ ds, ¬ d.Alters ref) :
    ∃ look', L' ref = some look' ∧ look'.kind = .file backing ∧
      backing.Renews F look.content look'.content := by
  obtain ⟨look', found', kind', content⟩ := move.keeps_shown found (.inl kind) spared
  exact ⟨look', found', kind'.elim (·.trans kind) id, content⟩

theorem readCap (move : Move L F ds L' F') (id : FileId) : (F' id).readCap = (F id).readCap := by
  have put {b : FileBacking} {bytes : PageBytes} {moved : Nat} :
      (F.putBack b bytes moved id).readCap = (F id).readCap := by
    by_cases hid : id = b.file
    · subst hid
      simp only [Files.putBack, Function.update_self, FileFace.put]
      split <;> rfl
    · rw [Files.putBack_of_ne hid]
  cases move with
  | spoil | dropWriting => exact put
  | evict _ saved =>
      cases saved with
      | anon | clean => rfl
      | dirty => exact put
  | _ => rfl

theorem loads (move : Move L F ds L' F') {d : Deed} (hd : d ∈ ds) {x : ByteAt} (hx : x ∈ d.loads) :
    ∃ look bytes, L' x.ref = some look ∧ look.content = some bytes ∧
      bytes.byteAt x.offset = x.byte := by
  cases move with
  | @read r look bytes offset count found content =>
      cases List.mem_singleton.1 hd
      obtain ⟨rfl, hbyte⟩ := Deed.loads_slice hx
      exact ⟨look, bytes, found, content, hbyte⟩
  | fill _ _ settles =>
      have hsettles := settles d hd
      cases d with
      | make | fail => exact nomatch hx
      | _ => exact hsettles.elim
  | still | spoil | evict => exact nomatch hd
  | _ =>
      cases List.mem_singleton.1 hd
      exact nomatch hx

end Move

def FileFace.ReadsWhole (face : FileFace) : Prop := ∀ k n, File.capped (face.readCap k) n = n

theorem FileFace.ReadsWhole.delivers {face : FileFace} {offset count i : Nat} {got : Array UInt8}
    (h : face.ReadsWhole) (got_of : face.Delivers offset count got) (hi : i < count) :
    got[i]? = face.data[offset + i]? := by
  obtain ⟨k, rfl⟩ := got_of
  rw [h, Array.getElem?_extract]
  split
  · rfl
  · rw [Array.getElem?_eq_none (by omega)]

namespace Core

variable {c c' c₁ : Core} {ds : List Deed} {ref src dst : PageRef} {backing : FileBacking}
  {hops : List (Core × Core)} {bytes : PageBytes}

def held? (c : Core) (ref : PageRef) : Option PageBytes := (c.looks ref).bind Look.content

def Backs (c : Core) (ref : PageRef) (backing : FileBacking) : Prop :=
  ∃ look, c.looks ref = some look ∧ look.kind = .file backing

/-- As far as the page shows the file, it is as the file is. -/
def FileHolds (c : Core) (backing : FileBacking) (bytes : PageBytes) : Prop :=
  ∀ i < backing.readBytes,
    (c.files backing.file).data[backing.offset + i]?.getD 0 = bytes.byteAt i

/-- As far as the page shows the file, memory has these bytes or nothing of the page. -/
def MemoryHolds (c : Core) (ref : PageRef) (backing : FileBacking) (bytes : PageBytes) : Prop :=
  ∀ now, c.held? ref = some now → ∀ i < backing.readBytes, now.byteAt i = bytes.byteAt i

theorem Step.move_or_store (h : Step c ds c') (hs : c.Sound) :
    Move c.looks c.files ds c'.looks c'.files ∨ ∃ r mapping offset bytes,
      ds = [.write r offset bytes] ∧ c.mappings.find? r = some mapping ∧ mapping.writable = true ∧
        c' = c.store r mapping.page (PageBytes.patch (c.memory.read mapping.page) offset bytes) := by
  by_cases hw : ∃ d ∈ ds, d.IsWrite
  · refine .inr ?_
    obtain ⟨d, hd, writes⟩ := hw
    cases h with
    | write mapped writable => exact ⟨_, _, _, _, rfl, mapped, writable, rfl⟩
    | fill _ _ _ filled =>
        have settles := filled.settles.1 d hd
        cases d with
        | make | fail => exact writes.elim
        | _ => exact settles.elim
    | touch | learn | acquire | spoil | evict | refuse | copy | own | remap => exact nomatch hd
    | _ =>
        rw [List.mem_singleton.1 hd] at writes
        exact writes.elim
  · exact .inl (h.move hs fun some => (hw some).elim)

theorem Step.keeps_file (h : Step c ds c') (hs : c.Sound) (shielded : c.Shielded ref)
    (backs : c.Backs ref backing) (spared : ∀ d ∈ ds, ¬ d.Alters ref) :
    c'.Backs ref backing ∧ backing.Renews c.files (c.held? ref) (c'.held? ref) := by
  rcases h.move_or_store hs with move | ⟨r, mapping, offset, bytes, rfl, mapped, writable, rfl⟩
  · obtain ⟨look, found, kind⟩ := backs
    obtain ⟨look', found', kind', hcontent⟩ := move.keeps_file found kind spared
    refine ⟨⟨look', found', kind'⟩, fun bytes hbytes => ?_⟩
    have hheld : c.held? ref = look.content := by rw [held?, found, Option.bind_some]
    rw [hheld]
    rw [held?, found', Option.bind_some] at hbytes
    exact hcontent bytes hbytes
  · have hr : ref ≠ r := fun he => spared _ List.mem_cons_self he.symm
    have same : (c.store r mapping.page (PageBytes.patch (c.memory.read mapping.page) offset
        bytes)).looks ref = c.looks ref := hs.looks_store shielded mapped writable hr
    exact ⟨by rwa [Backs, same], fun now hnow => .inl (by rwa [held?, same] at hnow)⟩

theorem Step.readsWhole (h : Step c ds c') (hs : c.Sound) {id : FileId}
    (hr : (c.files id).ReadsWhole) : (c'.files id).ReadsWhole := by
  rcases h.move_or_store hs with move | ⟨r, mapping, offset, bytes, -, -, -, rfl⟩
  · intro k n
    rw [move.readCap id]
    exact hr k n
  · exact hr

theorem Step.loads (h : Step c ds c') (hs : c.Sound) {d : Deed} (hd : d ∈ ds) {x : ByteAt}
    (hx : x ∈ d.loads) : ∃ bytes, c'.held? x.ref = some bytes ∧ bytes.byteAt x.offset = x.byte := by
  rcases h.move_or_store hs with move | ⟨r, mapping, offset, bytes, rfl, -⟩
  · obtain ⟨look, bytes, hlook, hcontent, hbyte⟩ := move.loads hd hx
    exact ⟨bytes, by rw [held?, hlook, Option.bind_some, hcontent], hbyte⟩
  · rw [List.mem_singleton.1 hd] at hx
    exact nomatch hx

theorem Steps.readsWhole (h : Steps c ds c') (hs : c.Sound) {id : FileId}
    (hr : (c.files id).ReadsWhole) : (c'.files id).ReadsWhole := by
  induction h with
  | refl => exact hr
  | tail run step ih => exact step.readsWhole (run.sound hs) ih

inductive Trail (c : Core) : List (Core × Core) → List Deed → Core → Prop where
  | start : Trail c [] [] c
  | step {c₁ c₂ : Core} {hops : List (Core × Core)} {ds es : List Deed}
      (before : Trail c hops ds c₁) (step : Step c₁ es c₂) :
      Trail c (hops ++ [(c₁, c₂)]) (ds ++ es) c₂

theorem Trail.steps (h : Trail c hops ds c') : Steps c ds c' := by
  induction h with
  | start => exact .refl _
  | step _ step ih => exact ih.tail step

theorem Steps.trail (h : Steps c ds c') : ∃ hops, Trail c hops ds c' := by
  induction h with
  | refl => exact ⟨[], .start⟩
  | tail _ step ih =>
      obtain ⟨hops, trail⟩ := ih
      exact ⟨_, trail.step step⟩

/-- Whenever the page comes back to memory, the file has these bytes. -/
def Reloads (ref : PageRef) (backing : FileBacking) (bytes : PageBytes) (hop : Core × Core) : Prop :=
  hop.1.held? ref = none → hop.2.held? ref ≠ none → hop.1.FileHolds backing bytes

theorem Trail.shielded (h : Trail c hops ds c') (hs : c.Sound) (hg : c.Guarded fun _ => False)
    (hc : c.Calm) : ∀ hop ∈ hops, hop.1.Shielded ref := by
  induction h with
  | start => exact nofun
  | step before _ ih =>
      rw [List.forall_mem_append, List.forall_mem_singleton]
      exact ⟨ih, (before.steps.guarded_of_calm hs hc hg).shielded ref⟩

theorem Trail.keeps_file (h : Trail c hops ds c') (hs : c.Sound)
    (shielded : ∀ hop ∈ hops, hop.1.Shielded ref) (backs : c.Backs ref backing)
    (spared : ∀ d ∈ ds, ¬ d.Alters ref) : c'.Backs ref backing := by
  induction h with
  | start => exact backs
  | step before step ih =>
      rw [List.forall_mem_append, List.forall_mem_singleton] at shielded
      have hbacks := ih shielded.1 fun d hd => spared d (List.mem_append_left _ hd)
      exact (step.keeps_file (before.steps.sound hs) shielded.2 hbacks
        fun d hd => spared d (List.mem_append_right _ hd)).1

theorem Steps.keeps_file (h : Steps c ds c') (hs : c.Sound) (hg : c.Guarded fun _ => False)
    (hc : c.Calm) (backs : c.Backs ref backing) (spared : ∀ d ∈ ds, ¬ d.Alters ref) :
    c'.Backs ref backing := by
  obtain ⟨hops, trail⟩ := h.trail
  exact trail.keeps_file hs (trail.shielded hs hg hc) backs spared

theorem Trail.append {new : List (Core × Core)} {es : List Deed} (h : Trail c hops ds c₁)
    (h' : Trail c₁ new es c') : Trail c (hops ++ new) (ds ++ es) c' := by
  induction h' with
  | start => simpa only [List.append_nil] using h
  | step _ step ih =>
      rw [← List.append_assoc, ← List.append_assoc]
      exact ih.step step

theorem Trail.split (h : Trail c hops ds c') {hop : Core × Core} (mem : hop ∈ hops) :
    ∃ before after ds₁ es ds₂, hops = before ++ hop :: after ∧ ds = ds₁ ++ es ++ ds₂ ∧
      Trail c before ds₁ hop.1 ∧ Step hop.1 es hop.2 := by
  induction h with
  | start => exact nomatch mem
  | @step c₁ c₂ hops ds es trail step ih =>
      rcases List.mem_append.1 mem with mem | mem
      · obtain ⟨before, after, ds₁, es₁, ds₂, rfl, rfl, trail₁, step₁⟩ := ih mem
        exact ⟨before, after ++ [(c₁, c₂)], ds₁, es₁, ds₂ ++ es, by simp, by simp, trail₁, step₁⟩
      · obtain rfl := List.mem_singleton.1 mem
        exact ⟨hops, [], ds, es, [], rfl, (List.append_nil _).symm, trail, step⟩

theorem Trail.upheld_iff {P : Core → Prop} {R : Core × Core → Prop} (h : Trail c hops ds c')
    (start : P c) (kept : ∀ hop ∈ hops, P hop.1 → (P hop.2 ↔ R hop)) :
    (∀ hop ∈ hops, P hop.2) ↔ ∀ hop ∈ hops, R hop := by
  suffices both : ((∀ hop ∈ hops, P hop.2) ↔ ∀ hop ∈ hops, R hop) ∧
      ((∀ hop ∈ hops, P hop.2) → P c') from both.1
  induction h with
  | start => exact ⟨⟨nofun, nofun⟩, fun _ => start⟩
  | @step c₁ c₂ hops ds es before step ih =>
      rw [List.forall_mem_append, List.forall_mem_singleton] at kept
      obtain ⟨hiff, hlast⟩ := ih kept.1
      simp only [List.forall_mem_append, List.forall_mem_singleton]
      refine ⟨⟨fun ⟨hall, hone⟩ => ?_, fun ⟨hall, hone⟩ => ?_⟩, fun hall => hall.2⟩
      · exact ⟨hiff.1 hall, (kept.2 (hlast hall)).1 hone⟩
      · exact ⟨hiff.2 hall, (kept.2 (hlast (hiff.2 hall))).2 hone⟩

theorem Step.memoryHolds_iff (h : Step c ds c') (hs : c.Sound) (shielded : c.Shielded ref)
    (whole : (c.files backing.file).ReadsWhole) (backs : c.Backs ref backing)
    (spared : ∀ d ∈ ds, ¬ d.Alters ref) (before : c.MemoryHolds ref backing bytes) :
    c'.MemoryHolds ref backing bytes ↔ Reloads ref backing bytes (c, c') := by
  obtain ⟨-, hcontent⟩ := h.keeps_file hs shielded backs spared
  have loaded {got : Array UInt8} {i : Nat} (hi : i < backing.readBytes)
      (got_of : (c.files backing.file).Delivers backing.offset backing.readBytes got) :
      (PageBytes.ofArray got).byteAt i =
        (c.files backing.file).data[backing.offset + i]?.getD 0 := by
    rw [PageBytes.byteAt_ofArray (Nat.lt_of_lt_of_le hi backing.readBytes_le),
      whole.delivers got_of hi]
  constructor
  · intro hheld haway hback i hi
    obtain ⟨now, hnow⟩ := Option.ne_none_iff_exists'.1 hback
    rcases hcontent now hnow with hsame | ⟨-, got, got_of, rfl⟩
    · rw [haway] at hsame
      exact nomatch hsame
    · rw [← hheld _ hnow i hi, loaded hi got_of]
  · intro hreloads now hnow i hi
    rcases hcontent now hnow with hsame | ⟨haway, got, got_of, rfl⟩
    · exact before now hsame i hi
    · have hback : c'.held? ref ≠ none := by
        rw [hnow]
        exact nofun
      rw [loaded hi got_of]
      exact hreloads haway hback i hi

theorem Trail.keeps_iff (h : Trail c hops ds c') (hs : c.Sound)
    (shielded : ∀ hop ∈ hops, hop.1.Shielded ref) (whole : (c.files backing.file).ReadsWhole)
    (backs : c.Backs ref backing) (spared : ∀ d ∈ ds, ¬ d.Alters ref)
    (holds : c.MemoryHolds ref backing bytes) :
    (∀ hop ∈ hops, hop.2.MemoryHolds ref backing bytes) ↔
      ∀ hop ∈ hops, Reloads ref backing bytes hop := by
  refine h.upheld_iff (P := (MemoryHolds · ref backing bytes)) holds fun hop mem before => ?_
  obtain ⟨hops₁, hops₂, ds₁, es, ds₂, rfl, rfl, trail, step⟩ := h.split mem
  rw [List.forall_mem_append] at shielded
  rw [List.forall_mem_append, List.forall_mem_append] at spared
  exact step.memoryHolds_iff (trail.steps.sound hs) (shielded.2 hop List.mem_cons_self)
    (trail.steps.readsWhole hs whole) (trail.keeps_file hs shielded.1 backs spared.1.1) spared.1.2
    before

theorem Trail.loads (h : Trail c hops ds c') (hs : c.Sound) {x : ByteAt}
    (hx : x ∈ Deed.allLoads ds) :
    ∃ hop ∈ hops, ∃ bytes, hop.2.held? x.ref = some bytes ∧ bytes.byteAt x.offset = x.byte := by
  induction h with
  | start => exact nomatch hx
  | @step c₁ c₂ hops ds es before step ih =>
      rw [Deed.allLoads_append] at hx
      rcases List.mem_append.1 hx with hx | hx
      · obtain ⟨hop, hhop, hheld⟩ := ih hx
        exact ⟨hop, List.mem_append_left _ hhop, hheld⟩
      · obtain ⟨d, hd, hx⟩ := List.mem_flatMap.1 hx
        exact ⟨_, List.mem_append_right _ List.mem_cons_self, step.loads (before.steps.sound hs) hd hx⟩

theorem held_resident {page : Page} {id : FrameId} {frame : Frame}
    (found : c.pages.find? ref = some page) (resident : page.frame = some id)
    (owned : c.frames.find? id = some frame) : c.held? ref = some (c.memory.read frame.page) := by
  rw [held?, looks_found found, lookOf_resident resident owned, Option.bind_some]

theorem Sound.held_shared (hs : c.Sound) (h : c.Shares src dst) :
    ∃ bytes, c.held? src = some bytes ∧ c.held? dst = some bytes := by
  obtain ⟨page, copy, id, found, found', resident, resident', -⟩ := h
  obtain ⟨frame, owned, -⟩ := hs.owned.frame_of src page id found resident
  exact ⟨_, held_resident found resident owned, held_resident found' resident' owned⟩

theorem Shares.backs (h : c.Shares src dst) (backs : c.Backs src backing) : c.Backs dst backing := by
  obtain ⟨page, copy, id, found, found', -, -, htwin⟩ := h
  obtain ⟨look, hlook, kind⟩ := backs
  rw [looks_found found] at hlook
  cases hlook
  refine ⟨_, looks_found found', ?_⟩
  rw [show page.kind = .file backing from kind] at htwin
  exact htwin

theorem Shares.leads {a b : PageRef} (h : c.Shares a b) (hs : c.Sound) (hne : a ≠ b)
    (leads : c.Leads c' src dst) (ha : a ≠ src ∧ a ≠ dst) (hb : b ≠ src ∧ b ≠ dst) :
    c'.Shares a b := by
  obtain ⟨page, copy, id, found, found', resident, resident', htwin⟩ := h
  obtain ⟨frame, owned, -⟩ := hs.owned.frame_of a page id found resident
  have many : frame.owners.length ≠ 1 := by
    intro hone
    obtain ⟨owner, howner⟩ := List.length_eq_one_iff.1 hone
    have hmem := hs.owner found resident owned
    have hmem' := hs.owner found' resident' owned
    rw [howner] at hmem hmem'
    exact hne ((List.mem_singleton.1 hmem).trans (List.mem_singleton.1 hmem').symm)
  exact ⟨page, copy, id, leads.keeps a page id frame ha.1 ha.2 found resident owned many,
    leads.keeps b copy id frame hb.1 hb.2 found' resident' owned many, resident, resident', htwin⟩

theorem Copies.spares {done : Bool} (h : c.Copies src dst done ds) : ∀ d ∈ ds, ¬ d.Alters ref := by
  intro d hd
  cases h with
  | absent | failed => exact nomatch hd
  | unused | shared | half =>
      rw [List.mem_singleton.1 hd]
      exact id

theorem CopiesAll.shares_file {s t : SpaceId} {vpns : List PageNum} {vpn : PageNum} {done : Bool}
    (h : CopiesAll s t c vpns done ds c') (hdone : done = true) (hs : c.Sound)
    (hg : c.Guarded fun _ => False) (hc : c.Calm) (hne : s ≠ t) (backs : c.Backs ⟨s, vpn⟩ backing)
    (start : c.Shares ⟨s, vpn⟩ ⟨t, vpn⟩ ∨ vpn ∈ vpns) :
    c'.Shares ⟨s, vpn⟩ ⟨t, vpn⟩ ∧ c'.Backs ⟨s, vpn⟩ backing := by
  induction h with
  | nil => exact ⟨start.resolve_right List.not_mem_nil, backs⟩
  | @next c c₁ _ v vpns _ ds _ first copies leads rest ih =>
      have hbacks₁ := first.keeps_file hs hg hc backs copies.spares
      refine ih hdone (first.sound hs) (first.guarded_of_calm hs hc hg) (first.calm hc) hbacks₁ ?_
      by_cases hv : vpn = v
      · subst hv
        obtain ⟨look, hlook, kind⟩ := backs
        obtain ⟨page, found, rfl⟩ := Option.map_eq_some_iff.1 hlook
        refine .inl (leads.shares page found ?_)
        rw [show page.kind = .file backing from kind]
        rfl
      · refine start.imp (fun hshares => ?_) fun hmem => (List.mem_cons.1 hmem).resolve_left hv
        have hvs (r : SpaceId) : (⟨s, vpn⟩ : PageRef) ≠ ⟨r, v⟩ ∧ (⟨t, vpn⟩ : PageRef) ≠ ⟨r, v⟩ :=
          ⟨fun he => hv (PageRef.mk.inj he).2, fun he => hv (PageRef.mk.inj he).2⟩
        exact hshares.leads hs (fun he => hne (PageRef.mk.inj he).1) leads ⟨(hvs s).1, (hvs t).1⟩
          ⟨(hvs s).2, (hvs t).2⟩
  | stop => exact nomatch hdone

end Core

/-- Requests that neither write to a page nor take it away, when nobody else changes entries or
files and page tables refuse nothing. -/
def Operation.Spares (ref : PageRef) : Operation → Prop
  | fork _ _ _ | setDirty _ _ _ | dropMapping _ _ | setInstalls _ _ | configureFile _ _
  | locked _ _ _ => False
  | remove s va => (⟨s, va.vpnFloor⟩ : PageRef) ≠ ref
  | unmap s _ | teardown s _ | exit s _ => s ≠ ref.space
  | write s va bytes _ => ∀ k < bytes.size, (⟨s, (va.advance k).vpnFloor⟩ : PageRef) ≠ ref
  | _ => True

theorem Operation.Spares.regular {op : Operation} {ref : PageRef} (h : op.Spares ref) :
    op.Regular := by
  cases op with
  | setDirty | dropMapping | setInstalls | configureFile | locked => exact h.elim
  | _ => trivial

theorem Operation.Does.spares {c c' : Core} {op : Operation} {a : Answer} {ds : List Deed}
    {ref : PageRef} (h : Does c c' op a ds) (hop : op.Spares ref)
    (present : c.pages.find? ref ≠ none) : ∀ d ∈ ds, ¬ d.Alters ref := by
  intro d hd alters
  cases d with
  | write =>
      cases alters
      have writes := h.writes_to hd
      cases op with
      | write =>
          obtain ⟨k, hk, same⟩ := writes
          exact hop k hk same.symm
      | _ => exact writes
  | drop =>
      cases alters
      have away := h.takes_away present hd
      cases op with
      | remove | unmap | teardown | exit => exact hop away
      | _ => exact away
  | _ => exact alters

/-- A run that spares a page, with each step of the pager on the way. -/
inductive Traced (ref : PageRef) (m : Machine) : List Exchange → List (Core × Core) → Machine → Prop
  | start : Traced ref m [] [] m
  | next {m₁ m' : Machine} {log : List Exchange} {hops new : List (Core × Core)} {ds : List Deed}
      {op : Operation} {a : Answer} (held : List PageRef) (before : Traced ref m log hops m₁)
      (spares : op.Spares ref) (answered : op.perform { m₁ with held } = .ok a m')
      (trail : Trail m₁.core new ds m'.core) (does : op.Does m₁.core m'.core a ds) :
      Traced ref m (log ++ [(op, a)]) (hops ++ new) m'

variable {m m₁ m' : Machine} {log later : List Exchange} {hops : List (Core × Core)}
  {ref : PageRef} {backing : FileBacking} {bytes : PageBytes}

structure Machine.Watches (m : Machine) (ref : PageRef) (backing : FileBacking) : Prop
    extends m.Settled where
  calm : m.core.Calm
  backs : m.core.Backs ref backing
  whole : (m.core.files backing.file).ReadsWhole

structure Machine.Shows (m : Machine) (ref : PageRef) (backing : FileBacking) : Prop where
  sound : m.core.Sound
  backs : m.core.Backs ref backing
  whole : (m.core.files backing.file).ReadsWhole

theorem Machine.Shows.present (h : m.Shows ref backing) : m.core.pages.find? ref ≠ none := by
  intro hnone
  obtain ⟨look, hlook, -⟩ := h.backs
  rw [looks_vacant hnone] at hlook
  exact nomatch hlook

theorem Machine.Watches.shows (h : m.Watches ref backing) : m.Shows ref backing :=
  ⟨h.sound, h.backs, h.whole⟩

theorem Traced.sound (h : Traced ref m log hops m') (hs : m.core.Sound) : m'.core.Sound := by
  induction h with
  | start => exact hs
  | next _ _ _ _ trail _ ih => exact trail.steps.sound ih

theorem Run.traced (run : Run (fun _ => Operation.Spares ref) m log m') (hs : m.core.Sound) :
    ∃ hops, Traced ref m log hops m' := by
  induction run with
  | nil => exact ⟨[], .start⟩
  | turn run turn all ih =>
      obtain ⟨hops, traced⟩ := ih
      cases turn with
      | served held whole answered =>
          have hop := all _ List.mem_cons_self
          obtain ⟨ds, steps, does⟩ :=
            Operation.perform_held hop.regular (traced.sound hs) answered
          obtain ⟨new, trail⟩ := steps.trail
          exact ⟨_, traced.next held hop answered trail does⟩
      | undone => exact (all _ List.mem_cons_self).elim

theorem Traced.trail (h : Traced ref m log hops m') (present : m.core.pages.find? ref ≠ none) :
    ∃ ds, Trail m.core hops ds m'.core ∧ ∀ d ∈ ds, ¬ d.Alters ref := by
  induction h with
  | start => exact ⟨[], .start, nofun⟩
  | next _ _ spares _ trail does ih =>
      obtain ⟨ds, before, spared⟩ := ih
      obtain ⟨page, found⟩ := Option.ne_none_iff_exists'.1 present
      obtain ⟨page₁, found₁, -⟩ := before.steps.remains found fun hd => spared _ hd rfl
      refine ⟨_, before.append trail, List.forall_mem_append.2 ⟨spared, does.spares spares ?_⟩⟩
      exact Option.ne_none_iff_exists'.2 ⟨page₁, found₁⟩

theorem Traced.shielded (h : Traced ref m log hops m') (watches : m.Watches ref backing) :
    ∀ hop ∈ hops, hop.1.Shielded ref := by
  obtain ⟨ds, trail, -⟩ := h.trail watches.shows.present
  exact trail.shielded watches.sound watches.guarded watches.calm

theorem Traced.keeps_iff (h : Traced ref m log hops m') (shows : m.Shows ref backing)
    (shielded : ∀ hop ∈ hops, hop.1.Shielded ref) (holds : m.core.MemoryHolds ref backing bytes) :
    (∀ hop ∈ hops, hop.2.MemoryHolds ref backing bytes) ↔
      ∀ hop ∈ hops, Reloads ref backing bytes hop := by
  obtain ⟨ds, trail, spared⟩ := h.trail shows.present
  exact trail.keeps_iff shows.sound shielded shows.whole shows.backs spared holds

theorem Traced.shown (h : Traced ref m log hops m') (hs : m.core.Sound) {s : SpaceId}
    {va sp : VirtAddr} {length : Nat} {got : Array UInt8}
    (read : (.read s va length sp, .bytes (some got)) ∈ log) : got.size = length ∧
      ∀ x ∈ ByteAt.along s va got.toList, ∃ hop ∈ hops, ∃ bytes,
        hop.2.held? x.ref = some bytes ∧ bytes.byteAt x.offset = x.byte := by
  induction h with
  | start => exact nomatch read
  | next _ before spares _ trail does ih =>
      rcases List.mem_append.1 read with read | read
      · obtain ⟨size, shown⟩ := ih read
        refine ⟨size, fun x hx => ?_⟩
        obtain ⟨hop, hhop, held⟩ := shown x hx
        exact ⟨hop, List.mem_append_left _ hhop, held⟩
      · cases List.mem_singleton.1 read
        cases does with
        | looked looks => exact looks.elim
        | read _ loads got_of =>
            obtain ⟨hshown, size⟩ := got_of got rfl
            refine ⟨size, fun x hx => ?_⟩
            rw [hshown, ← loads] at hx
            obtain ⟨hop, hhop, held⟩ := trail.loads (before.sound hs) hx
            exact ⟨hop, List.mem_append_right _ hhop, held⟩

theorem Traced.reads (h : Traced ref m log hops m') (hs : m.core.Sound)
    (holds : ∀ hop ∈ hops, hop.2.MemoryHolds ref backing bytes) {s : SpaceId} {va sp : VirtAddr}
    {length : Nat} {got : Array UInt8} (read : (.read s va length sp, .bytes (some got)) ∈ log)
    {x : ByteAt} (hx : x ∈ ByteAt.along s va got.toList) (href : x.ref = ref)
    (hoffset : x.offset < backing.readBytes) : x.byte = bytes.byteAt x.offset := by
  obtain ⟨hop, mem, now, held, hbyte⟩ := (h.shown hs read).2 x hx
  rw [← hbyte]
  exact holds hop mem now (href ▸ held) x.offset hoffset

/-- A file page and its copy begin with the same bytes. As long as the copy is neither written to
nor taken away, it keeps the bytes that it shows of the file exactly if the file has them whenever
the copy comes back to memory; and then these are the bytes that users read there. -/
theorem copied_file_page_kept_iff {frames : Nat} {sectors : Option Nat} {files : List File}
    {allocator : Allocator}
    {src dst : SpaceId} {vpn : PageNum} {order : Traversal} {page : Page} {held : List PageRef}
    (reached : Run (fun _ => Operation.Proper) (.fresh frames sectors files allocator) log m)
    (calm : m.core.Calm) (found : m.pages.find? ⟨src, vpn⟩ = some page)
    (kind : page.kind = .file backing) (whole : (m.core.files backing.file).ReadsWhole)
    (apart : src ≠ dst)
    (forked : (Operation.fork src dst order).perform { m with held } = .ok (.flag true) m₁)
    (run : Run (fun _ => Operation.Spares ⟨dst, vpn⟩) m₁ later m') :
    ∃ bytes, m₁.core.held? ⟨src, vpn⟩ = some bytes ∧ m₁.core.held? ⟨dst, vpn⟩ = some bytes ∧
      (∃ hops, Traced ⟨dst, vpn⟩ m₁ later hops m') ∧
        ∀ hops, Traced ⟨dst, vpn⟩ m₁ later hops m' →
          ((∀ hop ∈ hops, hop.2.MemoryHolds ⟨dst, vpn⟩ backing bytes) ↔
            ∀ hop ∈ hops, Reloads ⟨dst, vpn⟩ backing bytes hop) ∧
          ((∀ hop ∈ hops, Reloads ⟨dst, vpn⟩ backing bytes hop) →
            ∀ va length sp got, (.read dst va length sp, .bytes (some got)) ∈ later →
              ∀ x ∈ ByteAt.along dst va got.toList, x.ref = ⟨dst, vpn⟩ →
                x.offset < backing.readBytes → x.byte = bytes.byteAt x.offset) := by
  obtain ⟨hs, hg⟩ := reached.settled (fun _ _ h => h) (Machine.fresh_settled frames sectors files allocator)
  have hfork : (Operation.fork src dst order).Regular := trivial
  obtain ⟨ds, hsteps, hdoes⟩ := Operation.perform_held hfork hs forked
  have backs : m.core.Backs ⟨src, vpn⟩ backing := ⟨_, looks_found found, kind⟩
  have shared : m₁.core.Shares ⟨src, vpn⟩ ⟨dst, vpn⟩ ∧ m₁.core.Backs ⟨src, vpn⟩ backing := by
    cases hdoes with
    | looked looks => exact looks.elim
    | forked complete copies last =>
        have hmem := complete vpn fun hnone => by
          rw [show m.core.pages.find? ⟨src, vpn⟩ = some page from found] at hnone
          exact nomatch hnone
        have hshares := copies.shares_file rfl hs hg calm apart backs (.inr hmem)
        generalize m₁.core = c at last
        cases last with
        | chart => exact hshares
        | fill _ _ _ filled => exact (filled.settles.1 _ List.mem_cons_self).elim
  obtain ⟨bytes, hsrc, hdst⟩ := (hsteps.sound hs).held_shared shared.1
  have watches : m₁.Watches ⟨dst, vpn⟩ backing :=
    ⟨⟨hsteps.sound hs, hsteps.guarded_of_calm hs calm hg⟩, hsteps.calm calm,
      shared.1.backs shared.2, hsteps.readsWhole hs whole⟩
  have holds : m₁.core.MemoryHolds ⟨dst, vpn⟩ backing bytes := by
    intro now hnow i _
    rw [hdst] at hnow
    rw [Option.some.inj hnow]
  obtain ⟨hops, traced⟩ := run.traced watches.sound
  refine ⟨bytes, hsrc, hdst, ⟨hops, traced⟩, fun hops traced => ?_⟩
  have hiff := traced.keeps_iff watches.shows (traced.shielded watches) holds
  refine ⟨hiff, fun reloads va length sp got read x hx href hoffset => ?_⟩
  exact traced.reads watches.sound (hiff.2 reloads) read hx href hoffset

theorem Machine.serve_quiet {ops : List Operation} (regular : ∀ op ∈ ops, op.Regular)
    (h : m.serve ops = some (log, m')) (hs : m.core.Sound) (hg : m.core.Guarded fun _ => False)
    (hc : m.core.Calm) : m'.core.Calm ∧
      ∀ id, (m.core.files id).ReadsWhole → (m'.core.files id).ReadsWhole := by
  induction ops generalizing m log with
  | nil =>
      cases Option.some.inj h
      exact ⟨hc, fun _ hr => hr⟩
  | cons op ops ih =>
      obtain ⟨a, m₁, rest, first, hrest, rfl⟩ := Machine.serve_cons h
      cases first with
      | served held whole answered =>
          obtain ⟨ds, hsteps, -⟩ :=
            Operation.perform_held (regular op List.mem_cons_self) hs answered
          obtain ⟨hcalm, hwhole⟩ := ih (fun o ho => regular o (List.mem_cons_of_mem op ho)) hrest
            (hsteps.sound hs) (hsteps.guarded_of_calm hs hc hg) (hsteps.calm hc)
          exact ⟨hcalm, fun id hr => hwhole id (hsteps.readsWhole hs hr)⟩

/-- Three bytes are written to a mapped page, which is then copied. Once the page that was copied
has gone its own way and the copy was out of memory, the copy shows what was written later. -/
theorem copied_file_page_lost : ∃ log m m₁ later m' page backing bytes hops,
    Run (fun _ => Operation.Proper) (.fresh 2 none [.ofData #[1, 2, 3] false]) log m ∧
      m.pages.find? ⟨0, ⟨2⟩⟩ = some page ∧ page.kind = .file backing ∧
      (Operation.fork 0 1 .asStored).perform { m with held := [] } = .ok (.flag true) m₁ ∧
      Run (fun _ => Operation.Spares ⟨1, ⟨2⟩⟩) m₁ later m' ∧
      m₁.core.held? ⟨1, ⟨2⟩⟩ = some bytes ∧ bytes.byteAt 0 = 9 ∧
      (∃ sp, (.read 1 (.ofBits 8192) 3 sp, .bytes (some #[6, 5, 4])) ∈ later) ∧
      Traced ⟨1, ⟨2⟩⟩ m₁ later hops m' ∧
      ¬ ∀ hop ∈ hops, Reloads ⟨1, ⟨2⟩⟩ backing bytes hop := by
  have played : ((Machine.fresh 2 none [.ofData #[1, 2, 3] false]).serve [.newSpace,
      .map 0 (.ofBits 8192) 4096 true 0 0, .write 0 (.ofBits 8192) #[9, 8, 7] (.ofBits 0)]).any
        (fun r => decide ((r.2.pages.find? ⟨0, ⟨2⟩⟩).map (·.kind) =
            some (.file ⟨0, 0, 3, by decide⟩)) &&
          (r.2.ask [] (.fork 0 1 .asStored)).any fun r₁ => r₁.1.flag? == some true &&
            ((r₁.2.core.held? ⟨0, ⟨2⟩⟩).any (fun bytes => bytes.byteAt 0 == 9) &&
              (r₁.2.serve [.write 0 (.ofBits 8192) #[6, 5, 4] (.ofBits 0),
                .declare 1 (.ofBits 4096) true .anon none,
                .read 1 (.ofBits 4096) 1 (.ofBits 0)]).any fun r₂ =>
                  (r₂.2.ask [] (.read 1 (.ofBits 8192) 3 (.ofBits 0))).any fun r₃ =>
                    r₃.1.bytes? == some #[6, 5, 4])) = true := by
    decide +kernel
  obtain ⟨⟨log, m⟩, hserved, hcheck⟩ := (Option.any_eq_true _ _).1 played
  obtain ⟨hkind, hcheck⟩ := Bool.and_eq_true_iff.1 hcheck
  obtain ⟨page, found, kind⟩ := Option.map_eq_some_iff.1 (of_decide_eq_true hkind)
  obtain ⟨⟨a, m₁⟩, asked, hcheck⟩ := (Option.any_eq_true _ _).1 hcheck
  simp only [Bool.and_eq_true, beq_iff_eq] at hcheck
  obtain ⟨hflag, hheld, hcheck⟩ := hcheck
  obtain rfl := Answer.flag?_eq_some.1 hflag
  have forked := Machine.ask_eq_some.1 asked
  obtain ⟨⟨later, m₂⟩, hserved', hcheck⟩ := (Option.any_eq_true _ _).1 hcheck
  obtain ⟨⟨a, m'⟩, asked', hread⟩ := (Option.any_eq_true _ _).1 hcheck
  obtain rfl := Answer.bytes?_eq_some.1 (beq_iff_eq.1 hread)
  have reached : Run (fun _ => Operation.Proper)
      (.fresh 2 none [.ofData #[1, 2, 3] false]) ([] ++ log) m :=
    .serve .nil (by simp [Operation.Proper]) hserved
  have before : Run (fun _ => Operation.Spares ⟨1, ⟨2⟩⟩) m₁ ([] ++ later) m₂ :=
    .serve .nil (by simp [Operation.Spares]) hserved'
  have run := before.turn (.served [] rfl (Machine.ask_eq_some.1 asked'))
    (by simp [Operation.Spares])
  have hlast : (Operation.read 1 (.ofBits 8192) 3 (.ofBits 0), Answer.bytes (some #[6, 5, 4])) ∈
      [] ++ later ++ [(.read 1 (.ofBits 8192) 3 (.ofBits 0), .bytes (some #[6, 5, 4]))] :=
    List.mem_append_right _ List.mem_cons_self
  obtain ⟨hs, hg⟩ := Machine.fresh_settled 2 none [.ofData #[1, 2, 3] false]
  obtain ⟨calm, whole⟩ := Machine.serve_quiet (by simp [Operation.Regular]) hserved hs hg
    fun _ _ => rfl
  obtain ⟨bytes, hsrc, hdst, ⟨hops, traced⟩, hkept⟩ := copied_file_page_kept_iff reached
    calm found kind (whole _ fun _ _ => rfl) (by decide) forked run
  have hbyte : bytes.byteAt 0 = 9 := by
    rw [hsrc] at hheld
    exact beq_iff_eq.1 hheld
  refine ⟨_, m, m₁, _, m', page, _, bytes, hops, reached, found, kind, forked, run, hdst, hbyte,
    ⟨_, hlast⟩, traced, fun reloads => ?_⟩
  have hsame : (6 : UInt8) = bytes.byteAt 0 := (hkept hops traced).2 reloads _ _ _ _ hlast
    ⟨⟨1, ⟨2⟩⟩, 0, 6⟩ List.mem_cons_self rfl (by decide)
  rw [hbyte] at hsame
  exact absurd hsame (by decide)

end DemandPaging
