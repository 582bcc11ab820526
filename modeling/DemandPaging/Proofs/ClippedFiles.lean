import DemandPaging.Proofs.MapVerdicts

/-!
What is seen of a file through a new mapping. Until somebody writes to one of its pages, that page shows
the bytes of the file that were asked for, and zeros behind them. Copies of the page may share its frame
and the page may leave memory and come back; as long as the file stays as it is, this makes no difference.
-/

namespace DemandPaging

open DemandPaging.Core

variable {m m₁ m' : Machine} {ref r : PageRef} {page : Page} {id : FrameId} {s : SpaceId}
  {va sp : VirtAddr} {length offset j : Nat} {writable : Bool} {file : FileId} {op : Operation} {a : Answer}
  {ds : List Deed} {log : List Exchange} {frames : Nat} {sectors : Option Nat} {files : List File}
  {allocator : Allocator} {backing : FileBacking} {data : Array UInt8}

/-! Pages that share a frame. -/

namespace Core

variable {c c' : Core}

/-- The other pages in the frame of a page cannot be written through. -/
def Warded (c : Core) (ref : PageRef) : Prop :=
  ∀ r entry, c.Together ref r → c.mappings.find? r = some entry → entry.writable = false

theorem Warded.shielded (h : c.Warded ref) (hs : c.Sound) : c.Shielded ref := by
  intro r entry page id frame mapped writable found resident owned hr
  by_contra hne
  have together : c.Together ref r := ⟨hne, id, frame, owned, hr, hs.owner found resident owned⟩
  exact nomatch writable.symm.trans (h r entry together mapped)

theorem Sound.alone_of_owners (hs : c.Sound) (found : c.pages.find? ref = some page)
    (resident : page.frame = some id) {phys : PhysPage}
    (owned : c.frames.find? id = some ⟨phys, [ref]⟩) (r : PageRef) : ¬ c.Together r ref := fun together =>
  together.1 (List.mem_singleton.1 ((hs.owner_iff found resident owned).2 (.inr together.symm)))

theorem Sound.alone_of_away (hs : c.Sound) (found : c.pages.find? ref = some page)
    (away : page.frame = none) (r : PageRef) : ¬ c.Together r ref := by
  rintro ⟨-, id, frame, owned, -, href⟩
  obtain ⟨p, there, resident⟩ := hs.owned.page_of id frame ref owned href
  cases found.symm.trans there
  exact nomatch away.symm.trans resident

theorem opened_before {mappings : Table PageRef Mapping} {e : PageRef} {new entry : Mapping}
    (closed : new.writable = false) (mapped : (mappings.insert e new).find? r = some entry)
    (writable : entry.writable = true) : mappings.find? r = some entry := by
  rcases Table.find?_insert_eq_some.1 mapped with ⟨-, rfl⟩ | ⟨-, old⟩
  · exact nomatch closed.symm.trans writable
  · exact old

theorem Step.writable_entry (h : Step c ds c') (hs : c.Sound) {entry : Mapping}
    (mapped : c'.mappings.find? r = some entry) (writable : entry.writable = true) :
    (∃ old, c.mappings.find? r = some old ∧ old.writable = true) ∨ ∀ a, ¬ c'.Together a r := by
  have hs' := h.sound hs
  have erased {e : PageRef} (mapped : (c.mappings.erase e).find? r = some entry) :
      ∃ old, c.mappings.find? r = some old ∧ old.writable = true :=
    ⟨entry, (Table.find?_erase_eq_some.1 mapped).2, writable⟩
  cases h with
  | evict _ _ saved =>
      obtain ⟨swap, files, rfl⟩ := saved.core_eq
      exact .inl (erased mapped)
  | refuse => exact .inl (erased mapped)
  | fail _ _ _ _ made =>
      obtain ⟨programs, rfl, -⟩ := made.core_eq
      exact .inl (erased mapped)
  | @lose ref page old new shared phys =>
      have left : (c.diverge ref old shared phys).mappings = c.mappings := disown_mappings _ _ _ _
      have there : ((c.diverge ref old shared phys).mappings.erase (page.entryRef ref)).find? r =
          some entry := mapped
      rw [left] at there
      exact .inl (erased there)
  | @fill _ ref page id phys _ bytes _ found away free filled =>
      obtain ⟨swap, programs, rfl, -⟩ := filled.core_eq
      rw [hs.entryRef found] at mapped
      rcases Table.find?_insert_eq_some.1 mapped with ⟨rfl, -⟩ | ⟨-, old⟩
      · exact .inr (hs'.alone_of_owners Table.find?_insert_self rfl FrameTable.find?_update_self)
      · exact .inl ⟨entry, old, writable⟩
  | @copy ref page old new shared phys found resident owned many free =>
      rw [hs.entryRef found] at mapped
      rcases Table.find?_insert_eq_some.1 mapped with ⟨rfl, -⟩ | ⟨-, kept⟩
      · exact .inr (hs'.alone_of_owners Table.find?_insert_self rfl FrameTable.find?_update_self)
      · have left : (c.diverge ref old shared phys).mappings = c.mappings := disown_mappings _ _ _ _
        exact .inl ⟨entry, left ▸ kept, writable⟩
  | @remap ref page id frame found resident owned =>
      rw [hs.entryRef found] at mapped
      rcases Table.find?_insert_eq_some.1 mapped with ⟨rfl, rfl⟩ | ⟨-, old⟩
      · have own : page.cow = false := by
          simp only [Page.mappedWritable, Bool.and_eq_true, Bool.not_eq_true'] at writable
          exact writable.2
        have sole := hs.owned.sole r page id frame found resident own owned
        have owned : c.frames.find? id = some ⟨frame.page, [r]⟩ := sole ▸ owned
        exact .inr (hs.alone_of_owners found resident owned)
      · exact .inl ⟨entry, old, writable⟩
  | share => exact .inl ⟨entry, opened_before rfl (opened_before rfl mapped writable) writable, writable⟩
  | shareHalf _ _ _ _ _ _ made =>
      rcases made with rfl | rfl
      · exact .inl ⟨entry, mapped, writable⟩
      · exact .inl ⟨entry, opened_before rfl mapped writable, writable⟩
  | @write ref mapping _ _ there opened =>
      have changed := (Table.find?_modify c.mappings ref r _).symm.trans mapped
      split at changed
      · next hr =>
          subst hr
          exact .inl ⟨mapping, there, opened⟩
      · exact .inl ⟨entry, changed, writable⟩
  | dropAway _ _ disposed =>
      obtain ⟨swap, files, rfl⟩ := disposed.core_eq
      exact .inl ⟨entry, mapped, writable⟩
  | drop _ _ _ disposed =>
      obtain ⟨swap, files, rfl⟩ := disposed.core_eq
      rw [disown_mappings] at mapped
      exact .inl (erased mapped)
  | _ => exact .inl ⟨entry, mapped, writable⟩

theorem Step.of_share {src dst : PageRef} {whole : Bool} (h : Step c ds c')
    (shared : .share src dst whole ∈ ds) :
    ds = [.share src dst whole] ∧ c.pages.find? dst = none := by
  cases h with
  | share _ _ vacant | shareHalf _ _ vacant =>
      cases List.mem_singleton.1 shared
      exact ⟨rfl, vacant⟩
  | fill _ _ _ filled => exact (filled.settles.1 _ shared).elim
  | chart | add | fail | lose | read | write | dropAway | drop =>
      exact nomatch List.mem_singleton.1 shared
  | _ => exact nomatch shared

theorem Step.warded (h : Step c ds c') (hs : c.Sound) (there : c.pages.find? ref ≠ none)
    (warded : c.Warded ref) : c'.Warded ref := by
  intro r entry together mapped
  by_contra writable
  rw [Bool.not_eq_false] at writable
  rcases h.writable_entry hs mapped writable with ⟨old, before, opened⟩ | alone
  · refine Bool.false_ne_true ((warded r old ?_ before).symm.trans opened)
    by_cases shared : ∃ src dst whole, .share src dst whole ∈ ds
    · obtain ⟨src, dst, whole, shared⟩ := shared
      obtain ⟨rfl, vacant⟩ := h.of_share shared
      have other {x : PageRef} (hx : c.pages.find? x ≠ none) : x ≠ dst := fun heq => hx (heq ▸ vacant)
      obtain ⟨page, id, frame, found, -⟩ := hs.mapped r old before
      refine (h.together_share (other there) (other ?_)).1 together
      rw [found]
      exact nofun
    · exact h.together_before hs (fun a b whole hd => shared ⟨a, b, whole, hd⟩) together
  · exact alone ref together

end Core

/-! What a page shows of a file. -/

def FileBacking.shown (backing : FileBacking) (data : Array UInt8) (i : Nat) : UInt8 :=
  if i < backing.readBytes then data[backing.offset + i]?.getD 0 else 0

theorem FileFace.ReadsWhole.fills {face : FileFace} {got : Array UInt8} (whole : face.ReadsWhole)
    (got_of : face.Delivers backing.offset backing.readBytes got) {i : Nat} (hi : i < pageSize) :
    (PageBytes.ofArray got).byteAt i = backing.shown face.data i := by
  rw [PageBytes.byteAt_ofArray hi, FileBacking.shown]
  split
  · next within => rw [whole.delivers got_of within]
  · next beyond =>
      have short : got.size ≤ backing.readBytes := by
        obtain ⟨k, rfl⟩ := got_of
        have := File.capped_le (face.readCap k) (min backing.readBytes (face.data.size - backing.offset))
        rw [Array.size_extract]
        omega
      rw [Array.getElem?_eq_none (by omega)]
      rfl

namespace Core

variable {c c' c₁ : Core} {hops : List (Core × Core)}

/-- There is a page of a range of a file, used or not, and memory holds nothing of it but what the file
has. -/
def Displays (c : Core) (ref : PageRef) (backing : FileBacking) (data : Array UInt8) : Prop :=
  ∃ look, c.looks ref = some look ∧
    (look.kind = .file backing ∨ look.kind = .uninit (.file backing) none) ∧
      ∀ bytes, look.content = some bytes → ∀ i < pageSize, bytes.byteAt i = backing.shown data i

theorem Displays.there (h : c.Displays ref backing data) : c.pages.find? ref ≠ none := by
  intro vacant
  obtain ⟨look, found, -⟩ := h
  exact nomatch (looks_vacant vacant).symm.trans found

theorem Displays.held (h : c.Displays ref backing data) {bytes : PageBytes}
    (held : c.held? ref = some bytes) {i : Nat} (hi : i < pageSize) :
    bytes.byteAt i = backing.shown data i := by
  obtain ⟨look, found, -, content⟩ := h
  rw [held?, found, Option.bind_some] at held
  exact content bytes held i hi

theorem Step.displays (h : Step c ds c') (hs : c.Sound) (shielded : c.Shielded ref)
    (whole : (c.files backing.file).ReadsWhole) (spared : ∀ d ∈ ds, ¬ d.Alters ref)
    (displays : c.Displays ref backing (c.files backing.file).data) :
    c'.Displays ref backing (c.files backing.file).data := by
  rcases h.move_or_store hs with move | ⟨r, mapping, offset, bytes, rfl, mapped, writable, rfl⟩
  · obtain ⟨look, found, kind, content⟩ := displays
    obtain ⟨look', found', kind', content'⟩ := move.keeps_shown found kind spared
    refine ⟨look', found', ?_, fun bytes hbytes i hi => ?_⟩
    · rcases kind' with kind' | kind'
      · rwa [kind']
      · exact .inl kind'
    · rcases content' bytes hbytes with same | ⟨-, got, got_of, rfl⟩
      · exact content bytes same i hi
      · exact whole.fills got_of hi
  · have hr : ref ≠ r := fun he => spared _ List.mem_cons_self he.symm
    have same : (c.store r mapping.page (PageBytes.patch (c.memory.read mapping.page) offset
        bytes)).looks ref = c.looks ref := hs.looks_store shielded mapped writable hr
    unfold Displays
    rwa [same]

theorem Thins.sound {mappings : Table PageRef Mapping} {files : FileId → FileFace}
    {grants : SpaceId → Nat → Bool} (kept : c.Thins mappings) (hs : c.Sound) :
    Sound { c with mappings, files, grants } := by
  refine ⟨hs.owned, fun r entry mapped => ?_, hs.slotted, hs.pooled, hs.table, hs.programs⟩
  obtain ⟨old, before, page, writable⟩ := kept r entry mapped
  rw [page, writable]
  exact hs.mapped r old before

/-- One thing after the other: steps of the pager, and changes that others make to files, to what page
tables grant and to their entries. -/
inductive Passage (c : Core) : List (Core × Core) → List Deed → Core → Prop where
  | start : Passage c [] [] c
  | step {c₁ c₂ : Core} {hops : List (Core × Core)} {ds es : List Deed} (before : Passage c hops ds c₁)
      (step : Step c₁ es c₂) : Passage c (hops ++ [(c₁, c₂)]) (ds ++ es) c₂
  | meddled {c₁ : Core} {hops : List (Core × Core)} {ds : List Deed} {mappings : Table PageRef Mapping}
      {files : FileId → FileFace} {grants : SpaceId → Nat → Bool} (before : Passage c hops ds c₁)
      (kept : c₁.Thins mappings) :
      Passage c (hops ++ [(c₁, { c₁ with mappings, files, grants })]) ds
        { c₁ with mappings, files, grants }

theorem Passage.trans {xs ys : List (Core × Core)} {es : List Deed} (h : Passage c xs ds c₁)
    (h' : Passage c₁ ys es c') : Passage c (xs ++ ys) (ds ++ es) c' := by
  induction h' with
  | start => rwa [List.append_nil, List.append_nil]
  | step _ step ih =>
      rw [← List.append_assoc, ← List.append_assoc]
      exact ih.step step
  | meddled _ kept ih =>
      rw [← List.append_assoc]
      exact ih.meddled kept

theorem Steps.passage (h : Steps c ds c') : ∃ hops, Passage c hops ds c' := by
  induction h with
  | refl => exact ⟨[], .start⟩
  | tail _ step ih =>
      obtain ⟨hops, passage⟩ := ih
      exact ⟨_, passage.step step⟩

def Lasts (file : FileId) (data : Array UInt8) (hops : List (Core × Core)) : Prop :=
  ∀ hop ∈ hops, (hop.1.files file).data = data ∧ (hop.1.files file).ReadsWhole

/-- A page shows a file, and those who share its frame cannot write to it. -/
structure Mirrors (c : Core) (ref : PageRef) (backing : FileBacking) (data : Array UInt8) : Prop where
  sound : c.Sound
  warded : c.Warded ref
  displays : c.Displays ref backing data

theorem Mirrors.step (h : c.Mirrors ref backing data) (step : Step c ds c')
    (same : (c.files backing.file).data = data) (whole : (c.files backing.file).ReadsWhole)
    (spared : ∀ d ∈ ds, ¬ d.Alters ref) : c'.Mirrors ref backing data := by
  obtain ⟨hs, warded, displays⟩ := h
  subst same
  exact ⟨step.sound hs, step.warded hs displays.there warded,
    step.displays hs (warded.shielded hs) whole spared displays⟩

theorem Mirrors.meddled {mappings : Table PageRef Mapping} {files : FileId → FileFace}
    {grants : SpaceId → Nat → Bool} (h : c.Mirrors ref backing data)
    (kept : c.Thins mappings) : Mirrors { c with mappings, files, grants } ref backing data := by
  obtain ⟨hs, warded, look, found, kind, content⟩ := h
  refine ⟨kept.sound hs, fun r entry together mapped => ?_, ?_⟩
  · obtain ⟨old, before, -, same⟩ := kept r entry mapped
    rw [same]
    exact warded r old together before
  · obtain ⟨page, there, rfl⟩ := Option.map_eq_some_iff.1 found
    exact ⟨_, looks_found (c := { c with mappings, files, grants }) there, kind, content⟩

theorem Passage.mirrors (h : Passage c hops ds c') (mirrors : c.Mirrors ref backing data)
    (lasts : Lasts backing.file data hops) (spared : ∀ d ∈ ds, ¬ d.Alters ref) :
    c'.Mirrors ref backing data := by
  induction h with
  | start => exact mirrors
  | step _ step ih =>
      obtain ⟨before, now⟩ := List.forall_mem_append.1 lasts
      obtain ⟨same, whole⟩ := now _ List.mem_cons_self
      obtain ⟨spared, spared'⟩ := List.forall_mem_append.1 spared
      exact (ih before spared).step step same whole spared'
  | meddled _ kept ih => exact (ih (List.forall_mem_append.1 lasts).1 spared).meddled kept

theorem Passage.loads (h : Passage c hops ds c') (mirrors : c.Mirrors ref backing data)
    (lasts : Lasts backing.file data hops) (spared : ∀ d ∈ ds, ¬ d.Alters ref) {b : ByteAt}
    (hb : b ∈ Deed.allLoads ds) (href : b.ref = ref) (hi : b.offset < pageSize) :
    b.byte = backing.shown data b.offset := by
  induction h with
  | start => exact nomatch hb
  | step before step ih =>
      obtain ⟨lasts, now⟩ := List.forall_mem_append.1 lasts
      obtain ⟨same, whole⟩ := now _ List.mem_cons_self
      obtain ⟨spared, spared'⟩ := List.forall_mem_append.1 spared
      rw [Deed.allLoads_append] at hb
      rcases List.mem_append.1 hb with hb | hb
      · exact ih lasts spared hb
      · have mirrors₁ := before.mirrors mirrors lasts spared
        obtain ⟨d, hd, hb⟩ := List.mem_flatMap.1 hb
        obtain ⟨bytes, held, byte⟩ := step.loads mirrors₁.sound hd hb
        rw [← byte]
        exact (mirrors₁.step step same whole spared').displays.held (href ▸ held) hi
  | meddled _ _ ih => exact ih (List.forall_mem_append.1 lasts).1 spared hb

end Core

/-! The requests meanwhile. -/

namespace Operation

variable {c c' : Core}

/-- The deeds that a request came to, and no other change. -/
inductive Means (op : Operation) (c c' : Core) (a : Answer) : List Deed → Prop where
  | silent (unheard : a = .absent ∨ ¬ op.Regular) : Means op c c' a []
  | does {c₁ : Core} {ds : List Deed} (first : Steps c [] c₁) (does : Does c₁ c' op a ds) :
      Means op c c' a ds

theorem Means.after {c₁ : Core} (first : Steps c [] c₁) (h : Means op c₁ c' a ds) :
    Means op c c' a ds := by
  cases h with
  | silent unheard => exact .silent unheard
  | does first' does => exact .does (first.trans first') does

theorem perform_passage (hs : m.core.Sound) (h : op.perform m = .ok a m') :
    ∃ hops ds, Passage m.core hops ds m'.core ∧ op.bare.Means m.core m'.core a ds := by
  induction op generalizing m m' with
  | locked s va op ih =>
      rcases locked_perform h with ⟨rfl, rfl⟩ | ⟨m₁, m₂, held, first, answered, rfl⟩
      · exact ⟨[], [], .start, .silent (.inl rfl)⟩
      · obtain ⟨hops, ds, passage, means⟩ := ih (m := { m₁ with held }) (first.sound hs) answered
        obtain ⟨before, looked⟩ := first.passage
        exact ⟨_, _, looked.trans passage, means.after first⟩
  | setDirty | dropMapping | setInstalls | configureFile =>
      obtain ⟨mappings, files, grants, hm', kept⟩ := irregular_core h id nofun
      rw [hm']
      exact ⟨_, [], Passage.start.meddled kept, .silent (.inr id)⟩
  | _ =>
      have goes := fun regular => perform_core regular hs h
      obtain ⟨ds, run, does⟩ := goes trivial
      obtain ⟨hops, passage⟩ := run.passage
      exact ⟨hops, ds, passage, .does (.refl _) does⟩

theorem Means.stays {ref : PageRef} (means : Means op c c' a ds) (present : c.pages.find? ref ≠ none)
    (unwritten : ¬ op.WritesTo ref) (stays : ¬ op.TakesAway ref) : ∀ d ∈ ds, ¬ d.Alters ref := by
  cases means with
  | silent => exact nofun
  | @does c₁ _ first does =>
      have present₁ : c₁.pages.find? ref ≠ none := by
        obtain ⟨page, found⟩ := Option.ne_none_iff_exists'.1 present
        obtain ⟨page₁, found₁, -⟩ := first.remains found nofun
        rw [found₁]
        exact nofun
      intro d hd alters
      cases d with
      | drop =>
          obtain rfl : _ = ref := alters
          exact stays (does.takes_away present₁ hd)
      | write =>
          obtain rfl : _ = ref := alters
          exact unwritten (does.writes_to hd)
      | _ => exact alters

theorem Means.loads {n : Nat} {got : Array UInt8} {ds : List Deed}
    (means : Means (.read s va n sp) c c' (.bytes (some got)) ds) :
    Deed.allLoads ds = ByteAt.along s va got.toList := by
  cases means with
  | silent unheard =>
      rcases unheard with unheard | irregular
      · exact nomatch unheard
      · exact (irregular trivial).elim
  | does _ does =>
      cases does with
      | looked looks => exact looks.elim
      | read _ loads got_of => rw [loads, (got_of got rfl).1]

end Operation

/-- What happened in a machine while it served requests, one thing at a time, whoever held which locks. -/
inductive Machine.Chronicle (m : Machine) :
    List Exchange → List (Core × Core) → Machine → Prop where
  | start : Chronicle m [] [] m
  | next {m₁ m' : Machine} {log : List Exchange} {hops new : List (Core × Core)} {op : Operation}
      {a : Answer} {ds : List Deed} (held : List PageRef) (before : Chronicle m log hops m₁)
      (answered : op.perform { m₁ with held } = .ok a m') (passage : Passage m₁.core new ds m'.core)
      (means : op.bare.Means m₁.core m'.core a ds) : Chronicle m (log ++ [(op, a)]) (hops ++ new) m'

namespace Machine

variable {n : Nat} {loan : HandleCount} {hops : List (Core × Core)}

theorem Serves.chronicle (run : m.Serves log m') (tidy : m.Tidy n loan) :
    ∃ hops, m.Chronicle log hops m' := by
  induction run with
  | nil => exact ⟨[], .start⟩
  | @next m₁ m' log op a held run answered ih =>
      obtain ⟨hops, chronicle⟩ := ih
      have sound : Core.Sound { m₁ with held }.core := (run.reaches.tidy tidy).sound
      obtain ⟨new, ds, passage, means⟩ := Operation.perform_passage sound answered
      exact ⟨_, chronicle.next held answered passage means⟩

def Spared (ref : PageRef) (log : List Exchange) : Prop :=
  ∀ e ∈ log, ¬ e.1.bare.WritesTo ref ∧ ¬ e.1.bare.TakesAway ref

theorem Chronicle.mirrors (h : m.Chronicle log hops m') (mirrors : m.core.Mirrors ref backing data)
    (lasts : Lasts backing.file data hops) (spared : Spared ref log) :
    m'.core.Mirrors ref backing data := by
  induction h with
  | start => exact mirrors
  | next _ _ _ passage means ih =>
      obtain ⟨lasts, now⟩ := List.forall_mem_append.1 lasts
      obtain ⟨spared, last⟩ := List.forall_mem_append.1 spared
      obtain ⟨unwritten, stays⟩ := last _ List.mem_cons_self
      have before := ih lasts spared
      exact passage.mirrors before now (means.stays before.displays.there unwritten stays)

theorem Chronicle.reads (h : m.Chronicle log hops m') (mirrors : m.core.Mirrors ref backing data)
    (lasts : Lasts backing.file data hops) (spared : Spared ref log) {count : Nat}
    {got : Array UInt8} (read : (op, .bytes (some got)) ∈ log) (asked : op.bare = .read s va count sp)
    {b : ByteAt} (hb : b ∈ ByteAt.along s va got.toList) (href : b.ref = ref)
    (hi : b.offset < pageSize) : b.byte = backing.shown data b.offset := by
  induction h with
  | start => exact nomatch read
  | next _ before _ passage means ih =>
      obtain ⟨early, now⟩ := List.forall_mem_append.1 lasts
      obtain ⟨others, last⟩ := List.forall_mem_append.1 spared
      obtain ⟨unwritten, stays⟩ := last _ List.mem_cons_self
      rcases List.mem_append.1 read with read | read
      · exact ih early others read
      · cases List.mem_singleton.1 read
        have mirrors₁ := before.mirrors mirrors early others
        have unaltered := means.stays mirrors₁.displays.there unwritten stays
        rw [asked] at means
        exact passage.loads mirrors₁ now unaltered (means.loads ▸ hb) href hi

end Machine

/-! The mapping itself. -/

/-- Byte number `j` of a mapping of a file: what the file has there, up to the end of what was asked for
and of the file, and zero beyond. -/
def clipped (data : Array UInt8) (length offset j : Nat) : UInt8 :=
  if h : j < length ∧ offset + j < data.size then data[offset + j] else 0

theorem MapRequest.shown_eq {r : MapRequest} (size : r.fileLength = data.size) (j : Nat) :
    (r.backing (j / pageSize)).shown data (j % pageSize) = clipped data r.length r.offset j := by
  have index : r.offset + j / pageSize * pageSize + j % pageSize = r.offset + j := by
    have := Nat.div_add_mod' j pageSize
    omega
  have within : j % pageSize < (r.backing (j / pageSize)).readBytes ↔
      j < r.length ∧ r.offset + j < data.size := by
    simp only [MapRequest.backing, size, pageSize] at *
    omega
  unfold FileBacking.shown clipped
  simp only [within]
  split
  · next h =>
      change data[r.offset + j / pageSize * pageSize + j % pageSize]?.getD 0 = _
      rw [index, Array.getElem?_eq_getElem h.2]
      rfl
  · rfl

theorem VirtAddr.advance_mapped (good : ¬ m.Unmappable va length file offset)
    (hj : j < (length + (pageSize - 1)) / pageSize * pageSize) :
    (va.advance j).vpnFloor = ⟨va.vpnFloor.val + j / pageSize⟩ ∧
      (va.advance j).pageOffset = j % pageSize ∧ (va.advance j).isUser = true := by
  simp only [Machine.Unmappable, not_or, not_lt, not_le, ne_eq, not_not] at good
  obtain ⟨nonzero, aligned, -, -, user, -⟩ := good
  have sum : (va.advance j).val = va.val + j :=
    val_advance_of_lt (by simp only [pageSize, userSpaceEnd, wordBound] at *; omega)
  rw [VirtAddr.isUser_iff]
  simp only [VirtAddr.vpnFloor, VirtAddr.pageOffset, pageSize, userSpaceEnd, PageNum.mk.injEq] at *
  omega

theorem map_performed {start : VirtAddr}
    (answered : (Operation.map s va length writable file offset).perform m =
      .ok (.mapped (.ok start)) m₁) : ¬ m.Unmappable va length file offset ∧
      ∀ i < (length + (pageSize - 1)) / pageSize, m₁.pages.find? ⟨s, ⟨va.vpnFloor.val + i⟩⟩ =
        some ((m.mapRequest s va length writable file offset).page i) := by
  obtain ⟨_, m₂, opened, answered⟩ := bind_ok.1 answered
  obtain ⟨verdict, m₃, mapped, answered⟩ := bind_ok.1 answered
  obtain ⟨_, m₄, closed, answered⟩ := bind_ok.1 answered
  obtain ⟨heq, rfl⟩ := pure_ok.1 answered
  cases heq
  have pages : m₄.pages = m₃.pages := congrArg Core.pages (useFile_core closed).2
  have data : (m₂.file file).data = (m.file file).data := by
    rw [useFile_file opened, Function.update_self]
    rfl
  have same : m₂.mapRequest s va length writable file offset =
      m.mapRequest s va length writable file offset := by
    rw [Machine.mapRequest, data]
    rfl
  cases (map_answers (E := fun _ _ => True) s va length writable file offset m₂).ok mapped with
  | mapped good _ _ maps =>
      rw [same] at maps
      have good : ¬ m₂.Unmappable va length file offset := good
      refine ⟨?_, fun i hi => pages ▸ maps.added i hi⟩
      unfold Machine.Unmappable at good ⊢
      rwa [data] at good

theorem readPiece_timed {n : Nat} (coherent : m.Coherent) (permits : m.Permits false ⟨s, va.vpnFloor⟩)
    (user : va.isUser = true) (had : ∃ id m₁, allocateFrame m = .ok id m₁) (granted : m.takesEntry s = true)
    (comes : ∀ page, m.pages.find? ⟨s, va.vpnFloor⟩ = some page → m.initializes page.kind = true) :
    Ends OutOfTime (readPiece s va sp n) m fun got _ => got.isSome := by
  cases there : m.core.mappings.find? ⟨s, va.vpnFloor⟩ with
  | some mapping =>
      have read : readMapped s va n m =
          .ok (some (PageBytes.slice (m.memory.read mapping.page) va.pageOffset n)) m :=
        bind_ok.2 ⟨_, m, mapping?_ok there, rfl⟩
      exact .after read (.pure rfl)
  | none =>
      have unread : readMapped s va n m = .ok none m := bind_ok.2 ⟨_, m, mapping?_ok there, rfl⟩
      refine .after unread ?_
      have flags (present : Bool) : (FaultFlags.ofParts present false true).write = false :=
        FaultFlags.write_ofParts _ _ _
      have raised : Ends OutOfTime (faultIn s va sp false) m fun done m₁ =>
          done = true ∧ m₁.core.Lets ⟨s, va.vpnFloor⟩ false := by
        refine .after (mapping?_ok there) ?_
        refine (resolveFault_timed coherent fun _ => had).imp fun done m₁ resolved _ => ?_
        obtain rfl : done = true := (resolveFault_verdict coherent resolved).2 <|
          Machine.Permits.legitimate (by rwa [flags]) (VirtAddr.isUser_iff.1 user)
            (fun _ => FaultFlags.present_ofParts _ _ _) granted comes
        have lets := resolveFault_lets coherent.sound resolved
        rw [flags] at lets
        exact ⟨rfl, lets⟩
      refine raised.bind fun done m₁ _ ⟨yes, lets⟩ => ?_
      subst yes
      obtain ⟨bytes, -, read⟩ := lets.readMapped n
      unfold Ends
      dsimp only [if_true]
      rw [if_pos rfl, read]
      rfl

theorem userRead_timed (coherent : m.Coherent) (permits : m.Permits false ⟨s, va.vpnFloor⟩)
    (user : va.isUser = true) (had : ∃ id m₁, allocateFrame m = .ok id m₁) (granted : m.takesEntry s = true)
    (comes : ∀ page, m.pages.find? ⟨s, va.vpnFloor⟩ = some page → m.initializes page.kind = true) :
    Ends OutOfTime (userRead s va 1 sp) m fun got _ => ∃ byte, got = some #[byte] := by
  have below := va.pageOffset_lt
  have one : pieceCount va.pageOffset 1 = 1 := by
    simp only [pieceCount, Nat.one_ne_zero, if_false, pageSize] at *
    omega
  have whole : piece va.pageOffset 1 0 = (0, 1) := by
    simp only [piece, Nat.zero_mul, Nat.zero_sub, Nat.zero_add, Nat.one_mul, Nat.sub_zero, Prod.mk.injEq,
      true_and]
    omega
  have found : Ends OutOfTime (userRead s va 1 sp) m fun got _ => got.isSome := by
    unfold userRead
    rw [one, readPieces, whole]
    dsimp only
    rw [VirtAddr.advance_zero]
    refine (readPiece_timed coherent permits user had granted comes).bind fun got m₁ _ some_of => ?_
    obtain ⟨bytes, rfl⟩ := Option.isSome_iff_exists.1 some_of
    exact .pure rfl
  refine found.imp fun got m₁ read some_of => ?_
  obtain ⟨bytes, rfl⟩ := Option.isSome_iff_exists.1 some_of
  obtain ⟨_, _, -, -, -, sizes⟩ := userRead_core coherent.sound read
  obtain ⟨byte, hbyte⟩ := Array.size_eq_one_iff.1 (sizes bytes rfl).2
  exact ⟨byte, congrArg some hbyte⟩

/-- When a file was mapped, byte number `j` of the pages, which may lie beyond the end of what was asked
for or of the file, is read as the file has it, or as zero. It does not matter which pages are used first,
what is copied or leaves memory on the way and what else is served, as long as nobody writes to the page
or takes it away, the file stays what it was and reads of it are complete. And a read of the byte is
answered, if a frame is to be had and the page table takes the entry. -/
theorem mapped_file_shown {start : VirtAddr} {held : List PageRef}
    (reaches : (Machine.fresh frames sectors files allocator).Reaches m)
    (mapped : (Operation.map s va length writable file offset).perform { m with held } =
      .ok (.mapped (.ok start)) m₁)
    (hj : j < (length + (pageSize - 1)) / pageSize * pageSize) (later : m₁.Serves log m')
    (spared : Machine.Spared ⟨s, (va.advance j).vpnFloor⟩ log) :
    (∃ hops, m₁.Chronicle log hops m') ∧
      ∀ hops, m₁.Chronicle log hops m' → Lasts file (m.file file).data hops →
        (∀ op va' count sp got, (op, .bytes (some got)) ∈ log → op.bare = .read s va' count sp →
          ∀ b ∈ ByteAt.along s va' got.toList, b.ref = ⟨s, (va.advance j).vpnFloor⟩ →
            b.offset = (va.advance j).pageOffset →
              b.byte = clipped (m.file file).data length offset j) ∧
        ((∃ id m₂, allocateFrame m' = .ok id m₂) → m'.takesEntry s = true →
          ∀ sp, Ends OutOfTime (userRead s (va.advance j) 1 sp) m' fun got _ =>
            ∃ byte, got = some #[byte]) := by
  have tidy := Machine.fresh_tidy frames sectors files allocator
  have reaches₁ : (Machine.fresh frames sectors files allocator).Reaches m₁ := reaches.served held mapped
  have tidy₁ := reaches₁.tidy tidy
  have hs₁ : m₁.core.Sound := tidy₁.sound
  obtain ⟨good, added⟩ := map_performed mapped
  obtain ⟨number, place, user⟩ := VirtAddr.advance_mapped good hj
  have hi : j / pageSize < (length + (pageSize - 1)) / pageSize :=
    Nat.div_lt_of_lt_mul (by rwa [Nat.mul_comm])
  have found := added (j / pageSize) hi
  rw [← number] at found
  have mirrors : m₁.core.Mirrors ⟨s, (va.advance j).vpnFloor⟩
      ((m.mapRequest s va length writable file offset).backing (j / pageSize)) (m.file file).data := by
    refine ⟨hs₁, fun r entry together => ?_, ?_⟩
    · exact (hs₁.alone_of_away found rfl r together.symm).elim
    · exact ⟨_, looks_found found, .inr rfl, nofun⟩
  refine ⟨later.chronicle tidy₁, fun hops chronicle lasts =>
    ⟨fun op va' count sp got read asked b hb href hoffset => ?_, fun had granted sp => ?_⟩⟩
  · rw [chronicle.reads mirrors lasts spared read asked hb href (hoffset ▸ VirtAddr.pageOffset_lt _),
      hoffset, place]
    exact MapRequest.shown_eq (r := m.mapRequest s va length writable file offset) rfl j
  · have coherent := ((reaches₁.trans later.reaches).passes m'.held).coherent
    obtain ⟨look, there, kind, -⟩ := (chronicle.mirrors mirrors lasts spared).displays
    obtain ⟨page, found', rfl⟩ := Option.map_eq_some_iff.1 there
    have comes : m'.initializes page.kind = true := by
      rcases kind with kind | kind
      · rw [show page.kind = _ from kind]
        rfl
      · rw [show page.kind = _ from kind]
        rfl
    refine userRead_timed coherent ⟨page, found', nofun⟩ user had granted fun page' found'' => ?_
    cases found'.symm.trans found''
    exact comes

namespace Core

variable {c c' : Core}

def Clean (c : Core) : Prop := ∀ r look, c.looks r = some look → look.dirty = false

theorem Step.clean (h : Step c ds c') (hs : c.Sound) (clean : c.Clean)
    (unwritten : ∀ d ∈ ds, ¬ d.IsWrite) : c'.Clean ∧ c'.files = c.files := by
  have move := h.move hs fun ⟨d, hd, hw⟩ => (unwritten d hd hw).elim
  generalize hL : c'.looks = L' at move
  generalize hF : c'.files = F' at move
  have other {r : PageRef} {new : Option Look} (same : L' = Function.update c.looks r new)
      (spotless : ∀ look, new = some look → look.dirty = false) : c'.Clean := by
    intro r' look found
    rw [hL, same, Function.update_apply] at found
    split at found
    · exact spotless look found
    · exact clean r' look found
  cases move with
  | still | chart | read => exact ⟨fun r look found => clean r look (hL ▸ found), rfl⟩
  | spoil found => exact nomatch clean _ _ found
  | dropWriting found => exact nomatch clean _ _ found
  | evict found saved =>
      refine ⟨other rfl fun look h => ?_, ?_⟩
      · cases h
        rfl
      · cases saved with
        | anon | clean => rfl
        | dirty => exact nomatch clean _ _ found
  | write => exact (unwritten _ List.mem_cons_self trivial).elim
  | drop => exact ⟨other rfl nofun, rfl⟩
  | add | fill | fail | lose | share =>
      refine ⟨other rfl fun look h => ?_, rfl⟩
      cases h
      rfl

theorem Steps.passage_clean (h : Steps c ds c') (hs : c.Sound) (clean : c.Clean)
    (unwritten : ∀ d ∈ ds, ¬ d.IsWrite) : c'.Clean ∧ c'.files = c.files ∧
      ∃ hops, Passage c hops ds c' ∧ ∀ hop ∈ hops, hop.1.files = c.files := by
  induction h with
  | refl => exact ⟨clean, rfl, [], .start, nofun⟩
  | tail run step ih =>
      obtain ⟨before, last⟩ := List.forall_mem_append.1 unwritten
      obtain ⟨clean₁, same, hops, passage, all⟩ := ih before
      obtain ⟨clean₂, same₂⟩ := step.clean (run.sound hs) clean₁ last
      exact ⟨clean₂, same₂.trans same, _, passage.step step,
        List.forall_mem_append.2 ⟨all, List.forall_mem_singleton.2 same⟩⟩

end Core

theorem Machine.Serves.unwritten {n : Nat} {loan : HandleCount} (run : m.Serves log m')
    (tidy : m.Tidy n loan) (clean : m.core.Clean)
    (quiet : ∀ e ∈ log, e.1.Regular ∧ ∀ ref, ¬ e.1.WritesTo ref) :
    m'.core.Clean ∧ m'.core.files = m.core.files ∧
      ∃ hops, m.Chronicle log hops m' ∧ ∀ hop ∈ hops, hop.1.files = m.core.files := by
  induction run with
  | nil => exact ⟨clean, rfl, [], .start, nofun⟩
  | @next m₁ m' log op a held run answered ih =>
      obtain ⟨before, last⟩ := List.forall_mem_append.1 quiet
      obtain ⟨clean₁, same, hops, chronicle, all⟩ := ih before
      obtain ⟨regular, unwritten⟩ := last _ List.mem_cons_self
      have hs₁ : m₁.core.Sound := (run.reaches.tidy tidy).sound
      obtain ⟨ds, steps, does⟩ := Operation.perform_held regular hs₁ answered
      obtain ⟨clean', same', new, passage, all'⟩ := steps.passage_clean hs₁ clean₁ fun d hd hw => by
        cases d with
        | write => exact unwritten _ (does.writes_to hd)
        | _ => exact hw
      have bare : op.bare = op := by
        cases op with
        | locked => exact regular.elim
        | _ => rfl
      refine ⟨clean', same'.trans same, _, chronicle.next held answered passage ?_,
        List.forall_mem_append.2 ⟨all, fun hop hh => (all' hop hh).trans same⟩⟩
      rw [bare]
      exact .does (.refl _) does

def Answer.start? : Answer → Option VirtAddr
  | mapped (.ok start) => some start
  | _ => none

theorem Answer.start?_eq_some {start : VirtAddr} : a.start? = some start ↔ a = .mapped (.ok start) := by
  fun_cases start? a <;> simp_all

/-- A file of three bytes is mapped to two pages, for which there is one frame. The second page is read
first, and is zero; then the first one, which shows the file and zeros behind it. -/
theorem mapped_file_shown_with_one_frame : ∃ m m₁ m' log hops,
    (Machine.fresh 1 (some 16) [.ofData #[1, 2, 3] false]).Reaches m ∧
      (Operation.map 0 (.ofBits 8192) 4098 true 0 0).perform { m with held := [] } =
        .ok (.mapped (.ok (.ofBits 8192))) m₁ ∧
      m₁.Serves log m' ∧ m₁.Chronicle log hops m' ∧ Lasts 0 (m.file 0).data hops ∧
      log = [(.read 0 (.ofBits 12288) 1 (.ofBits 0), .bytes (some #[0])),
        (.read 0 (.ofBits 8192) 4 (.ofBits 0), .bytes (some #[1, 2, 3, 0]))] ∧
      0 = clipped (m.file 0).data 4098 0 4096 ∧ 3 = clipped (m.file 0).data 4098 0 2 ∧
      0 = clipped (m.file 0).data 4098 0 3 ∧
      ∃ byte m'', userRead 0 ((VirtAddr.ofBits 8192).advance 4096) 1 (.ofBits 0) m' =
        .ok (some #[byte]) m'' := by
  have played : ((Machine.fresh 1 (some 16) [.ofData #[1, 2, 3] false]).ask [] .newSpace).any (fun r =>
      (r.2.ask [] (.map 0 (.ofBits 8192) 4098 true 0 0)).any fun r₁ =>
        r₁.1.start? == some (.ofBits 8192) &&
          (r₁.2.ask [] (.read 0 (.ofBits 12288) 1 (.ofBits 0))).any fun r₂ => r₂.1.bytes? == some #[0] &&
            (r₂.2.ask [] (.read 0 (.ofBits 8192) 4 (.ofBits 0))).any fun r₃ =>
              r₃.1.bytes? == some #[1, 2, 3, 0] && ((r₃.2.outcome allocateFrame).isSome &&
                (r₃.2.takesEntry 0 &&
                  (r₃.2.outcome (userRead 0 ((VirtAddr.ofBits 8192).advance 4096) 1
                    (.ofBits 0))).isSome))) = true := by
    decide +kernel
  obtain ⟨⟨a, m⟩, asked₀, hcheck⟩ := (Option.any_eq_true _ _).1 played
  obtain ⟨⟨_, m₁⟩, asked, hcheck⟩ := (Option.any_eq_true _ _).1 hcheck
  obtain ⟨hstart, hcheck⟩ := Bool.and_eq_true_iff.1 hcheck
  obtain rfl := Answer.start?_eq_some.1 (beq_iff_eq.1 hstart)
  obtain ⟨⟨_, m₂⟩, asked₂, hcheck⟩ := (Option.any_eq_true _ _).1 hcheck
  obtain ⟨hbytes, hcheck⟩ := Bool.and_eq_true_iff.1 hcheck
  obtain rfl := Answer.bytes?_eq_some.1 (beq_iff_eq.1 hbytes)
  obtain ⟨⟨_, m'⟩, asked₃, hcheck⟩ := (Option.any_eq_true _ _).1 hcheck
  simp only [Bool.and_eq_true, beq_iff_eq] at hcheck
  obtain ⟨hbytes, had, granted, hread⟩ := hcheck
  obtain rfl := Answer.bytes?_eq_some.1 hbytes
  obtain ⟨⟨taken, m₃⟩, had⟩ := Option.isSome_iff_exists.1 had
  obtain ⟨⟨got, m''⟩, found⟩ := Option.isSome_iff_exists.1 hread
  rw [Machine.ask_eq_some] at asked₀ asked asked₂ asked₃
  rw [Machine.outcome_eq_some] at had found
  have tidy := Machine.fresh_tidy 1 (some 16) [.ofData #[1, 2, 3] false]
  have first : Machine.Serves _ ([] ++ [(.newSpace, a)]) m := .next [] .nil asked₀
  have reaches := first.reaches
  have early := first.next [] asked
  have later : m₁.Serves [(.read 0 (.ofBits 12288) 1 (.ofBits 0), .bytes (some #[0])),
      (.read 0 (.ofBits 8192) 4 (.ofBits 0), .bytes (some #[1, 2, 3, 0]))] m' :=
    .next [] ((Machine.Serves.nil (m := m₁)).next [] asked₂) asked₃
  -- nothing is ever written, so the file stays as it is
  obtain ⟨clean, same, -⟩ := early.unwritten tidy (fun r look h => nomatch h)
    (by simp [Operation.Regular, Operation.WritesTo])
  obtain ⟨-, -, hops, chronicle, all⟩ := later.unwritten (early.reaches.tidy tidy) clean
    (by simp [Operation.Regular, Operation.WritesTo])
  obtain ⟨-, same₀, -⟩ := first.unwritten tidy (fun r look h => nomatch h)
    (by simp [Operation.Regular, Operation.WritesTo])
  have lasts : Lasts 0 (m.file 0).data hops := by
    intro hop hh
    rw [all hop hh, same]
    exact ⟨(congrArg (fun F : FileId → FileFace => (F 0).data) same₀).symm, fun _ _ => rfl⟩
  have spared (ref : PageRef) : Machine.Spared ref
      [(.read 0 (.ofBits 12288) 1 (.ofBits 0), .bytes (some #[0])),
        (.read 0 (.ofBits 8192) 4 (.ofBits 0), .bytes (some #[1, 2, 3, 0]))] := by
    simp [Machine.Spared, Operation.bare, Operation.WritesTo, Operation.TakesAway]
  have shown {j : Nat} (hj : j < 8192) :=
    (mapped_file_shown reaches asked hj later (spared _)).2 hops chronicle lasts
  refine ⟨m, m₁, m', _, hops, reaches, asked, later, chronicle, lasts, rfl, ?_, ?_, ?_, ?_⟩
  · exact (shown (j := 4096) (by decide)).1 _ _ _ _ _ List.mem_cons_self rfl ⟨⟨0, ⟨3⟩⟩, 0, 0⟩
      List.mem_cons_self (by decide) (by decide)
  · exact (shown (j := 2) (by decide)).1 _ _ _ _ _ (List.mem_cons_of_mem _ List.mem_cons_self) rfl
      ⟨⟨0, ⟨2⟩⟩, 2, 3⟩ (List.mem_of_getElem? (i := 2) rfl) (by decide) (by decide)
  · exact (shown (j := 3) (by decide)).1 _ _ _ _ _ (List.mem_cons_of_mem _ List.mem_cons_self) rfl
      ⟨⟨0, ⟨2⟩⟩, 3, 0⟩ (List.mem_of_getElem? (i := 3) rfl) (by decide) (by decide)
  · obtain ⟨byte, rfl⟩ := ((shown (j := 4096) (by decide)).2 ⟨taken, m₃, had⟩ granted
      (.ofBits 0)).ok found
    exact ⟨byte, m'', found⟩

end DemandPaging
