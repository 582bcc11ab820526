import DemandPaging.Proofs.Effects

namespace DemandPaging

variable {m m' : Machine} {ref entry : PageRef} {page : Page} {backing : FileBacking} {u : Unit}

theorem File.face_read (file : File) (offset count : Nat) :
    (file.read offset count).2.face = file.face := rfl

theorem File.read_delivers (file : File) (offset count : Nat) :
    file.face.Delivers offset count (file.read offset count).1 :=
  ⟨file.readCaps.served, rfl⟩

theorem File.writeAt_accepts (file : File) (bytes : Array UInt8) (offset : Nat) :
    file.face.Accepts offset bytes (file.writeAt bytes offset).1 :=
  ⟨file.writeCaps.served, rfl⟩

theorem File.face_writeAt (file : File) (bytes : Array UInt8) (offset : Nat) :
    (file.writeAt bytes offset).2.face =
      file.face.put offset bytes (file.writeAt bytes offset).1 := by
  simp only [File.writeAt, FileFace.put]
  split <;> rfl

namespace FileBacking

theorem load_core {bytes : PageBytes} (h : backing.load m = .ok bytes m') :
    m'.core = m.core ∧ ∃ got, bytes = PageBytes.ofArray got ∧
      (m.core.files backing.file).Delivers backing.offset backing.readBytes got := by
  obtain ⟨got, m₁, h₁, h⟩ := bind_ok.1 h
  obtain ⟨rfl, hcore⟩ := useFile_core h₁
  obtain ⟨rfl, rfl⟩ := pure_ok.1 h
  refine ⟨?_, _, rfl, File.read_delivers _ _ _⟩
  rw [hcore, File.face_read]
  exact Core.setFile_self m.core backing.file

theorem writeBack_core {bytes : PageBytes} {whole : Bool}
    (h : backing.writeBack bytes m = .ok whole m') :
    ∃ moved, (m.core.files backing.file).Accepts backing.offset
        (PageBytes.slice bytes 0 backing.readBytes) moved ∧
      (whole = true ↔ moved = backing.readBytes) ∧
      m'.core = m.core.setFile backing.file ((m.core.files backing.file).put backing.offset
        (PageBytes.slice bytes 0 backing.readBytes) moved) := by
  obtain ⟨moved, m₁, h₁, h⟩ := bind_ok.1 h
  obtain ⟨rfl, hcore⟩ := useFile_core h₁
  rw [File.face_writeAt] at hcore
  refine ⟨_, File.writeAt_accepts _ _ _, ?_⟩
  split at h
  · next hw =>
      obtain ⟨rfl, rfl⟩ := pure_ok.1 h
      exact ⟨⟨fun _ => hw, fun _ => rfl⟩, hcore⟩
  · next hw =>
      obtain ⟨_, h₂, rfl⟩ := bind_pure_ok.1 h
      refine ⟨⟨fun ht => Bool.noConfusion ht, fun ht => (hw ht).elim⟩, ?_⟩
      rw [emit_core h₂]
      exact hcore

theorem duplicate_core {copy : Option FileBacking} (h : backing.duplicate m = .ok copy m') :
    m'.core = m.core ∧ ∀ b, copy = some b → b = backing := by
  obtain ⟨granted, m₁, h₁, h⟩ := bind_ok.1 h
  cases granted with
  | true =>
      obtain ⟨rfl, rfl⟩ := pure_ok.1 h
      exact ⟨reopen_core h₁, fun b hb => (Option.some.inj hb).symm⟩
  | false =>
      obtain ⟨rfl, rfl⟩ := pure_ok.1 h
      exact ⟨reopen_core h₁, fun b hb => nomatch hb⟩

theorem close_core (h : backing.close m = .ok u m') : m'.core = m.core := closeFile_core h

end FileBacking

theorem Machine.core_programs_insert {m : Machine} {id : ProgramId} {old new : Program}
    (h : m.programs.find? id = some old) :
    { m with programs := m.programs.insert id new }.core =
      { m.core with programs := Function.update m.core.programs id (some new.routine) } := by
  have hp : (fun i => ((m.programs.insert id new).find? i).map Program.routine) =
      Function.update (fun i => (m.programs.find? i).map Program.routine) id
        (some new.routine) := by
    funext i
    by_cases hi : id = i
    · subst hi
      simp [Table.find?_insert]
    · simp [Table.find?_insert, hi, Function.update_of_ne (Ne.symm hi)]
  have hk : id ∈ m.programs.keys := Table.mem_keys.2 (by rw [h]; rfl)
  simp only [Machine.core, hp, Table.size_insert_of_mem new hk]
  rfl

namespace Initializer

theorem duplicate_core {init : Initializer} {copy : Option Initializer}
    (h : init.duplicate m = .ok copy m') :
    m'.core = m.core ∧ ∀ i, copy = some i → i = init := by
  cases init with
  | segment backing =>
      obtain ⟨got, m₁, h₁, h⟩ := bind_ok.1 h
      obtain ⟨hcore, hgot⟩ := FileBacking.duplicate_core h₁
      obtain ⟨rfl, rfl⟩ := pure_ok.1 h
      refine ⟨hcore, fun i hi => ?_⟩
      obtain ⟨b, hb, rfl⟩ := Option.map_eq_some_iff.1 hi
      rw [hgot b hb]
  | program id =>
      replace h := bind_get_ok.1 h
      cases hp : m.programs.find? id with
      | none =>
          simp only [hp] at h
          obtain ⟨rfl, rfl⟩ := pure_ok.1 h
          exact ⟨rfl, fun i hi => by cases hi⟩
      | some routine =>
          simp only [hp] at h
          obtain ⟨_, m₁, h₂, h⟩ := bind_ok.1 h
          obtain rfl := set_ok.1 h₂
          obtain ⟨rfl, rfl⟩ := pure_ok.1 h
          refine ⟨?_, fun i hi => ?_⟩
          · rw [Machine.core_programs_insert hp]
            have hr : m.core.programs id = some routine.routine := by simp [Machine.core, hp]
            change { m.core with
              programs := Function.update m.core.programs id (some routine.routine) } = m.core
            rw [← hr, Function.update_eq_self]
          · split at hi
            · exact (Option.some.inj hi).symm
            · cases hi
  | alwaysFail =>
      obtain ⟨rfl, rfl⟩ := pure_ok.1 h
      exact ⟨rfl, fun i hi => (Option.some.inj hi).symm⟩

theorem close_core {init : Initializer} (h : init.close m = .ok u m') : m'.core = m.core := by
  cases init with
  | segment backing => exact backing.close_core h
  | program id => exact congrArg Machine.core (pure_ok.1 h).2.symm
  | alwaysFail => exact congrArg Machine.core (pure_ok.1 h).2.symm

theorem run_produces {init : Initializer} {bytes : PageBytes} {r : PageBytes × Bool}
    (h : init.run bytes m = .ok r m') : m.core.Produces bytes init r m'.core := by
  cases init with
  | segment backing =>
      obtain ⟨loaded, m₁, h₁, h⟩ := bind_ok.1 h
      obtain ⟨hcore, got, rfl, hgot⟩ := FileBacking.load_core h₁
      obtain ⟨_, h₂, rfl⟩ := bind_pure_ok.1 h
      rw [backing.close_core h₂, hcore]
      exact .segment hgot
  | program id =>
      replace h := bind_get_ok.1 h
      cases hp : m.programs.find? id with
      | none =>
          simp only [hp] at h
          obtain ⟨rfl, rfl⟩ := pure_ok.1 h
          exact .missing (by simp [Machine.core, hp])
      | some routine =>
          simp only [hp] at h
          obtain ⟨_, m₁, h₂, h⟩ := bind_ok.1 h
          obtain rfl := set_ok.1 h₂
          obtain ⟨rfl, rfl⟩ := pure_ok.1 h
          rw [Machine.core_programs_insert hp]
          have hr : m.core.programs id = some routine.routine := by simp [Machine.core, hp]
          exact .program hr
  | alwaysFail =>
      obtain ⟨rfl, rfl⟩ := pure_ok.1 h
      exact .alwaysFail

end Initializer

theorem closeInitializer_core {init : Option Initializer} (h : closeInitializer init m = .ok u m') :
    m'.core = m.core := by
  cases init with
  | none => exact congrArg Machine.core (pure_ok.1 h).2.symm
  | some init => exact Initializer.close_core h

namespace PageTarget

theorem duplicate_core {target : PageTarget} {copy : Option PageTarget}
    (h : target.duplicate m = .ok copy m') :
    m'.core = m.core ∧ ∀ t, copy = some t → t = target := by
  cases target with
  | anon =>
      obtain ⟨rfl, rfl⟩ := pure_ok.1 h
      exact ⟨rfl, fun t ht => (Option.some.inj ht).symm⟩
  | file backing =>
      obtain ⟨got, m₁, h₁, h⟩ := bind_ok.1 h
      obtain ⟨hcore, hgot⟩ := FileBacking.duplicate_core h₁
      obtain ⟨rfl, rfl⟩ := pure_ok.1 h
      refine ⟨hcore, fun t ht => ?_⟩
      obtain ⟨b, hb, rfl⟩ := Option.map_eq_some_iff.1 ht
      rw [hgot b hb]

theorem close_core {target : PageTarget} (h : target.close m = .ok u m') : m'.core = m.core := by
  cases target with
  | anon => exact congrArg Machine.core (pure_ok.1 h).2.symm
  | file backing => exact backing.close_core h

end PageTarget

namespace PageKind

theorem duplicate_core {kind : PageKind} {copy : Option PageKind}
    (h : kind.duplicate m = .ok copy m') :
    m'.core = m.core ∧ ∀ k, copy = some k → k = kind.twin := by
  cases kind with
  | uninit target init =>
      cases init with
      | none =>
          obtain ⟨got, m₁, h₁, h⟩ := bind_ok.1 h
          obtain ⟨hcore, hgot⟩ := PageTarget.duplicate_core h₁
          obtain ⟨rfl, rfl⟩ := pure_ok.1 h
          refine ⟨hcore, fun k hk => ?_⟩
          obtain ⟨t, ht, rfl⟩ := Option.map_eq_some_iff.1 hk
          rw [hgot t ht]
          rfl
      | some init =>
          obtain ⟨got, m₁, h₁, h⟩ := bind_ok.1 h
          obtain ⟨hcore, hgot⟩ := Initializer.duplicate_core h₁
          cases got with
          | none =>
              obtain ⟨rfl, rfl⟩ := pure_ok.1 h
              exact ⟨hcore, fun k hk => nomatch hk⟩
          | some copied =>
              obtain ⟨got, m₂, h₂, h⟩ := bind_ok.1 h
              obtain ⟨hcore', hgot'⟩ := PageTarget.duplicate_core h₂
              cases got with
              | none =>
                  obtain ⟨_, h₃, rfl⟩ := bind_pure_ok.1 h
                  refine ⟨?_, fun k hk => nomatch hk⟩
                  rw [Initializer.close_core h₃, hcore', hcore]
              | some t =>
                  obtain ⟨rfl, rfl⟩ := pure_ok.1 h
                  refine ⟨hcore'.trans hcore, fun k hk => ?_⟩
                  rw [← Option.some.inj hk, hgot' t rfl, hgot copied rfl]
                  rfl
  | anon slot =>
      obtain ⟨rfl, rfl⟩ := pure_ok.1 h
      exact ⟨rfl, fun k hk => (Option.some.inj hk).symm⟩
  | file backing =>
      obtain ⟨got, m₁, h₁, h⟩ := bind_ok.1 h
      obtain ⟨hcore, hgot⟩ := FileBacking.duplicate_core h₁
      obtain ⟨rfl, rfl⟩ := pure_ok.1 h
      refine ⟨hcore, fun k hk => ?_⟩
      obtain ⟨b, hb, rfl⟩ := Option.map_eq_some_iff.1 hk
      rw [hgot b hb]
      rfl

theorem close_core {kind : PageKind} (h : kind.close m = .ok u m') : m'.core = m.core := by
  cases kind with
  | uninit target init =>
      obtain ⟨_, m₁, h₁, h⟩ := bind_ok.1 h
      rw [closeInitializer_core h, target.close_core h₁]
  | anon slot => exact congrArg Machine.core (pure_ok.1 h).2.symm
  | file backing => exact backing.close_core h

end PageKind

theorem allocSlot_core {got : Option SwapSlot} (h : allocSlot m = .ok got m') :
    (got = none ∧ m'.core = m.core) ∨ ∃ slot swap, got = some slot ∧
      m.core.swap.allocSlot? = some (slot, swap) ∧ m'.core = { m.core with swap } := by
  replace h := bind_get_ok.1 h
  cases ha : m.swap.allocSlot? with
  | none =>
      simp only [ha] at h
      obtain ⟨rfl, rfl⟩ := pure_ok.1 h
      exact .inl ⟨rfl, rfl⟩
  | some taken =>
      obtain ⟨slot, swap⟩ := taken
      simp only [ha] at h
      obtain ⟨_, m₁, h₂, h⟩ := bind_ok.1 h
      obtain rfl := set_ok.1 h₂
      obtain ⟨_, h₃, rfl⟩ := bind_pure_ok.1 h
      exact .inr ⟨slot, swap, rfl, ha, emit_core h₃⟩

theorem freeSlot_core {slot : SwapSlot} (h : freeSlot slot m = .ok u m') :
    ∃ swap, m.core.swap.freeSlot slot = .ok swap ∧ m'.core = { m.core with swap } := by
  replace h := bind_get_ok.1 h
  obtain ⟨swap, m₁, h₂, h⟩ := bind_ok.1 h
  obtain ⟨hfree, rfl⟩ := ofExcept_ok.1 h₂
  obtain ⟨_, m₂, h₃, h⟩ := bind_ok.1 h
  obtain rfl := set_ok.1 h₃
  exact ⟨swap, hfree, emit_core h⟩

theorem readSlot_core {slot : SwapSlot} {old bytes : PageBytes}
    (h : readSlot slot old m = .ok bytes m') :
    m.core.swap.readSlot slot old = .ok bytes ∧ m = m' := by
  replace h := bind_get_ok.1 h
  exact ofExcept_ok.1 h

theorem writeSlot_core {slot : SwapSlot} {bytes : PageBytes} (h : writeSlot slot bytes m = .ok u m') :
    ∃ swap, m.core.swap.writeSlot slot bytes = .ok swap ∧ m'.core = { m.core with swap } := by
  replace h := bind_get_ok.1 h
  obtain ⟨swap, m₁, h₂, h⟩ := bind_ok.1 h
  obtain ⟨hwrite, rfl⟩ := ofExcept_ok.1 h₂
  obtain rfl := set_ok.1 h
  exact ⟨swap, hwrite, rfl⟩

namespace PageKind

variable {phys : PhysPage} {kind kind' : PageKind}

inductive Filled (phys : PhysPage) (m : Machine) : PageKind → PageKind × Bool → Machine → Prop where
  | newAnon {m' : Machine} (wrote : writePhys phys PageBytes.zero m = .ok ⟨⟩ m') :
      Filled phys m (.uninit .anon none) (.anon none, true) m'
  | newFile {backing : FileBacking} {bytes : PageBytes} {m₁ m' : Machine}
      (loaded : backing.load m = .ok bytes m₁) (wrote : writePhys phys bytes m₁ = .ok ⟨⟩ m') :
      Filled phys m (.uninit (.file backing) none) (.file backing, true) m'
  | made {target : PageTarget} {init : Initializer} {retry : Option Initializer} {bytes : PageBytes}
      {m₁ m₂ m₃ m' : Machine} (copied : init.duplicate m = .ok retry m₁)
      (ran : init.run (m₁.core.memory.read phys) m₁ = .ok (bytes, true) m₂)
      (wrote : writePhys phys bytes m₂ = .ok ⟨⟩ m₃) (closed : closeInitializer retry m₃ = .ok ⟨⟩ m') :
      Filled phys m (.uninit target (some init)) (target.kind, true) m'
  | failed {target : PageTarget} {init : Initializer} {retry : Option Initializer} {bytes : PageBytes}
      {m₁ m₂ m' : Machine} (copied : init.duplicate m = .ok retry m₁)
      (ran : init.run (m₁.core.memory.read phys) m₁ = .ok (bytes, false) m₂)
      (wrote : writePhys phys bytes m₂ = .ok ⟨⟩ m') : Filled phys m (.uninit target (some init))
        (.uninit target (some (retry.getD .alwaysFail)), false) m'
  | zero {m' : Machine} (wrote : writePhys phys PageBytes.zero m = .ok ⟨⟩ m') :
      Filled phys m (.anon none) (.anon none, true) m'
  | slot {slot : SwapSlot} {bytes : PageBytes} {m₁ m' : Machine}
      (stored : m.core.swap.readSlot slot (m.core.memory.read phys) = .ok bytes)
      (wrote : writePhys phys bytes m = .ok ⟨⟩ m₁) (freed : freeSlot slot m₁ = .ok ⟨⟩ m') :
      Filled phys m (.anon (some slot)) (.anon none, true) m'
  | file {backing : FileBacking} {bytes : PageBytes} {m₁ m' : Machine}
      (loaded : backing.load m = .ok bytes m₁) (wrote : writePhys phys bytes m₁ = .ok ⟨⟩ m') :
      Filled phys m (.file backing) (.file backing, true) m'

theorem fill_filled {r : PageKind × Bool} (h : kind.fill phys m = .ok r m') :
    Filled phys m kind r m' := by
  rcases kind with ⟨target, _ | init⟩ | (_ | slot) | backing
  · cases target with
    | anon =>
        obtain ⟨_, wrote, rfl⟩ := bind_pure_ok.1 h
        exact .newAnon wrote
    | file backing =>
        obtain ⟨bytes, m₁, loaded, h⟩ := bind_ok.1 h
        obtain ⟨_, wrote, rfl⟩ := bind_pure_ok.1 h
        exact .newFile loaded wrote
  · rw [fill] at h
    obtain ⟨retry, m₁, copied, h⟩ := bind_ok.1 h
    obtain ⟨old, _, h₂, h⟩ := bind_ok.1 h
    obtain ⟨rfl, rfl⟩ := readPhys_core h₂
    obtain ⟨⟨bytes, done⟩, m₂, ran, h⟩ := bind_ok.1 h
    obtain ⟨_, m₃, wrote, h⟩ := bind_ok.1 h
    cases done with
    | true =>
        obtain ⟨_, closed, rfl⟩ := bind_pure_ok.1 h
        exact .made copied ran wrote closed
    | false =>
        obtain ⟨rfl, rfl⟩ := pure_ok.1 h
        exact .failed copied ran wrote
  · obtain ⟨_, wrote, rfl⟩ := bind_pure_ok.1 h
    exact .zero wrote
  · obtain ⟨old, _, h₁, h⟩ := bind_ok.1 h
    obtain ⟨rfl, rfl⟩ := readPhys_core h₁
    obtain ⟨bytes, _, h₂, h⟩ := bind_ok.1 h
    obtain ⟨stored, rfl⟩ := readSlot_core h₂
    obtain ⟨_, m₁, wrote, h⟩ := bind_ok.1 h
    obtain ⟨_, freed, rfl⟩ := bind_pure_ok.1 h
    exact .slot stored wrote freed
  · obtain ⟨bytes, m₁, loaded, h⟩ := bind_ok.1 h
    obtain ⟨_, wrote, rfl⟩ := bind_pure_ok.1 h
    exact .file loaded wrote

theorem fill_core {filled : Bool} (ref : PageRef)
    (h : kind.fill phys m = .ok (kind', filled) m') :
    (filled = true ∧ ∃ bytes c₁ deeds,
      m.core.Fills ref (m.core.memory.read phys) kind kind' bytes c₁ deeds ∧
        m'.core = c₁.write phys bytes) ∨
    (filled = false ∧ ∃ target init kept bytes c₁, kind = .uninit target (some init) ∧
      kind' = .uninit target (some kept) ∧ init.Kept kept ∧
      m.core.Produces (m.core.memory.read phys) init (bytes, false) c₁ ∧
        m'.core = c₁.write phys bytes) := by
  cases fill_filled h with
  | newAnon wrote => exact .inl ⟨rfl, _, _, _, .newAnon, writePhys_core wrote⟩
  | newFile loaded wrote =>
      obtain ⟨hcore, got, rfl, hgot⟩ := FileBacking.load_core loaded
      refine .inl ⟨rfl, _, _, _, .newFile hgot, ?_⟩
      rw [writePhys_core wrote, hcore]
  | made copied ran wrote closed =>
      have hrun := Initializer.run_produces ran
      rw [(Initializer.duplicate_core copied).1] at hrun
      refine .inl ⟨rfl, _, _, _, .made hrun, ?_⟩
      rw [closeInitializer_core closed, writePhys_core wrote]
  | @failed target init retry bytes _ _ _ copied ran wrote =>
      obtain ⟨hcore, hretry⟩ := Initializer.duplicate_core copied
      have hrun := Initializer.run_produces ran
      rw [hcore] at hrun
      refine .inr ⟨rfl, target, init, _, bytes, _, rfl, rfl, ?_, hrun, writePhys_core wrote⟩
      cases retry with
      | none => exact .inr rfl
      | some copy => exact .inl (hretry copy rfl)
  | zero wrote => exact .inl ⟨rfl, _, _, _, .zero, writePhys_core wrote⟩
  | @slot slot bytes _ _ stored wrote freed =>
      obtain ⟨swap, hfree, hcore⟩ := freeSlot_core freed
      rw [writePhys_core wrote] at hfree hcore
      exact .inl ⟨rfl, bytes, { m.core with swap }, _, .slot stored hfree, hcore⟩
  | file loaded wrote =>
      obtain ⟨hcore, got, rfl, hgot⟩ := FileBacking.load_core loaded
      refine .inl ⟨rfl, _, _, _, .file hgot, ?_⟩
      rw [writePhys_core wrote, hcore]

theorem save_core {got : Option PageKind} (h : kind.save phys entry m = .ok got m') :
    (∃ kind' c₁, got = some kind' ∧
      m.core.Saves (m.core.memory.read phys) entry kind kind' c₁ ∧
        m'.core.unmap entry = c₁.unmap entry) ∨
    (got = none ∧ (m'.core = m.core ∨ ∃ backing moved, kind = .file backing ∧
      m.core.dirty entry = true ∧ (m.core.files backing.file).Accepts backing.offset
        (PageBytes.slice (m.core.memory.read phys) 0 backing.readBytes) moved ∧
      moved ≠ backing.readBytes ∧
      m'.core = m.core.setFile backing.file ((m.core.files backing.file).put backing.offset
        (PageBytes.slice (m.core.memory.read phys) 0 backing.readBytes) moved))) := by
  cases kind with
  | uninit target init =>
      obtain ⟨rfl, rfl⟩ := pure_ok.1 h
      exact .inr ⟨rfl, .inl rfl⟩
  | anon slot =>
      cases slot with
      | some slot => exact (throw_ok.1 h).elim
      | none =>
          obtain ⟨got, m₁, h₁, h⟩ := bind_ok.1 h
          rcases allocSlot_core h₁ with ⟨rfl, hcore⟩ | ⟨slot, taken, rfl, htaken, hcore⟩
          · obtain ⟨_, h₂, rfl⟩ := bind_pure_ok.1 h
            exact .inr ⟨rfl, .inl ((emit_core h₂).trans hcore)⟩
          · obtain ⟨bytes, _, h₂, h⟩ := bind_ok.1 h
            obtain ⟨rfl, rfl⟩ := readPhys_core h₂
            obtain ⟨_, h₃, rfl⟩ := bind_pure_ok.1 h
            obtain ⟨swap, hstored, hcore'⟩ := writeSlot_core h₃
            rw [hcore] at hstored hcore'
            exact .inl ⟨_, { m.core with swap }, rfl, .anon htaken hstored, by rw [hcore']⟩
  | file backing =>
      obtain ⟨dirty, _, h₁, h⟩ := bind_ok.1 h
      obtain ⟨hdirty, rfl⟩ := isDirty_core h₁
      cases dirty with
      | false =>
          obtain ⟨rfl, rfl⟩ := pure_ok.1 h
          exact .inl ⟨_, m.core, rfl, .clean hdirty.symm, rfl⟩
      | true =>
          obtain ⟨bytes, _, h₂, h⟩ := bind_ok.1 h
          obtain ⟨rfl, rfl⟩ := readPhys_core h₂
          obtain ⟨whole, m₁, h₃, h⟩ := bind_ok.1 h
          obtain ⟨moved, htaken, hwhole, hcore⟩ := FileBacking.writeBack_core h₃
          cases whole with
          | true =>
              obtain ⟨_, h₄, rfl⟩ := bind_pure_ok.1 h
              obtain rfl := hwhole.1 rfl
              refine .inl ⟨_, _, rfl, .dirty hdirty.symm htaken, ?_⟩
              rw [setDirty_core h₄, hcore]
              simp only [Core.unmap, Table.erase_modify]
          | false =>
              obtain ⟨rfl, rfl⟩ := pure_ok.1 h
              have hshort : moved ≠ backing.readBytes := fun he => nomatch hwhole.2 he
              exact .inr ⟨rfl, .inr ⟨backing, moved, rfl, hdirty.symm, htaken, hshort, hcore⟩⟩

theorem dispose_away (away : page.frame = none)
    (h : page.kind.dispose none page.writable entry m = .ok u m') :
    m.core.Disposes page entry m'.core := by
  have quiet (hk : ∀ slot, page.kind ≠ .anon (some slot)) : m.core.Disposes page entry m.core :=
    .nothing hk fun _ _ _ hf => by rw [away] at hf; exact nomatch hf
  cases hk : page.kind with
  | uninit target init =>
      rw [hk] at h
      obtain ⟨rfl, rfl⟩ := pure_ok.1 h
      exact quiet fun slot hs => by rw [hk] at hs; exact nomatch hs
  | anon slot =>
      rw [hk] at h
      cases slot with
      | none =>
          obtain ⟨rfl, rfl⟩ := pure_ok.1 h
          exact quiet fun slot hs => by rw [hk] at hs; exact nomatch hs
      | some slot =>
          obtain ⟨swap, hfree, hcore⟩ := freeSlot_core h
          rw [hcore]
          exact .slot hk hfree
  | file backing =>
      rw [hk] at h
      obtain ⟨rfl, rfl⟩ := pure_ok.1 h
      exact quiet fun slot hs => by rw [hk] at hs; exact nomatch hs

theorem dispose_resident {id : FrameId} {frame : Frame} (resident : page.frame = some id)
    (found : m.core.frames.find? id = some frame)
    (h : page.kind.dispose (some frame.page) page.writable entry m = .ok u m') :
    ∃ c₁, m.core.Disposes page entry c₁ ∧ m'.core.unmap entry = c₁.unmap entry := by
  cases hk : page.kind with
  | uninit target init =>
      rw [hk] at h
      obtain ⟨rfl, rfl⟩ := pure_ok.1 h
      refine ⟨_, .nothing (fun slot hs => ?_) (fun b i hb => ?_), rfl⟩
      · rw [hk] at hs; exact nomatch hs
      · rw [hk] at hb; exact nomatch hb
  | anon slot =>
      rw [hk] at h
      cases slot with
      | none =>
          obtain ⟨rfl, rfl⟩ := pure_ok.1 h
          refine ⟨_, .nothing (fun slot hs => ?_) (fun b i hb => ?_), rfl⟩
          · rw [hk] at hs; exact nomatch hs
          · rw [hk] at hb; exact nomatch hb
      | some slot =>
          obtain ⟨swap, hfree, hcore⟩ := freeSlot_core h
          exact ⟨_, .slot hk hfree, by rw [hcore]⟩
  | file backing =>
      rw [hk] at h
      have no_slot (slot : SwapSlot) : page.kind ≠ .anon (some slot) := by
        rw [hk]
        exact fun hs => nomatch hs
      obtain ⟨dirty, _, h₁, h⟩ := bind_ok.1 h
      obtain ⟨hdirty, rfl⟩ := isDirty_core h₁
      by_cases hw : page.writable = true ∧ dirty = true
      · obtain ⟨hw, rfl⟩ := hw
        rw [if_pos (by rw [hw]; rfl)] at h
        obtain ⟨bytes, _, h₂, h⟩ := bind_ok.1 h
        obtain ⟨rfl, rfl⟩ := readPhys_core h₂
        obtain ⟨whole, m₁, h₃, h⟩ := bind_ok.1 h
        obtain ⟨moved, htaken, hwhole, hcore⟩ := FileBacking.writeBack_core h₃
        refine ⟨_, .file hk resident found hw hdirty.symm htaken, ?_⟩
        cases whole with
        | true =>
            rw [setDirty_core h, hcore]
            simp only [Core.unmap, Table.erase_modify]
        | false =>
            obtain ⟨rfl, rfl⟩ := pure_ok.1 h
            rw [hcore]
      · rw [if_neg (by rwa [Bool.and_eq_true])] at h
        obtain ⟨rfl, rfl⟩ := pure_ok.1 h
        refine ⟨_, .nothing no_slot fun _ _ _ _ hb => ?_, rfl⟩
        rw [← hdirty, ← Bool.not_eq_true]
        exact fun hd => hw ⟨hb, hd⟩

end PageKind

theorem mapAndFill_parts {phys : PhysPage} {r : PageKind × Bool}
    (h : mapAndFill ref page phys m = .ok r m') :
    (∃ m₁ m₂, install (page.entryRef ref) phys page.writable m = .ok true m₁ ∧
      emit (.swapIn ref.va phys) m₁ = .ok ⟨⟩ m₂ ∧ page.kind.fill phys m₂ = .ok r m') ∨
    (r = (page.kind, false) ∧ install (page.entryRef ref) phys page.writable m = .ok false m') := by
  obtain ⟨granted, m₁, h₁, h⟩ := bind_ok.1 h
  cases granted with
  | true =>
      obtain ⟨_, m₂, h₂, h⟩ := bind_ok.1 h
      exact .inl ⟨m₁, m₂, h₁, h₂, h⟩
  | false =>
      obtain ⟨rfl, rfl⟩ := pure_ok.1 h
      exact .inr ⟨rfl, h₁⟩

end DemandPaging
