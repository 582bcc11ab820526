import DemandPaging.Proofs.Results
import DemandPaging.Proofs.Step

namespace DemandPaging

variable {m m' : Machine} {ref entry : PageRef} {page : Page} {u : Unit}

theorem Machine.core_files_insert (m : Machine) (id : FileId) (file : File) :
    { m with files := m.files.insert id file }.core = m.core.setFile id file.face := by
  have h : (fun i => ({ m with files := m.files.insert id file }.file i).face) =
      Function.update (fun i => (m.file i).face) id file.face := by
    funext i
    by_cases hi : id = i
    · subst hi
      simp [Machine.file, Table.find?_insert]
    · simp [Machine.file, Table.find?_insert, hi, Function.update_of_ne (Ne.symm hi)]
  simp only [Machine.core, Core.setFile, ← h]

theorem Core.setFile_self (c : Core) (id : FileId) : c.setFile id (c.files id) = c := by
  simp only [Core.setFile, Function.update_eq_self]

theorem modify_core {f : Machine → Machine} {u : PUnit}
    (h : (modify f : KernelM PUnit) m = .ok u m') (hf : ∀ m, (f m).core = m.core) : m'.core = m.core := by
  rw [← modify_ok.1 h]
  exact hf m

theorem emit_core {event : Event} (h : emit event m = .ok u m') : m'.core = m.core := by
  obtain rfl := emit_ok.1 h
  rfl

theorem useFile_core {α : Type} {id : FileId} {f : File → α × File} {a : α}
    (h : useFile id f m = .ok a m') :
    a = (f (m.file id)).1 ∧ m'.core = m.core.setFile id (f (m.file id)).2.face := by
  have h' := modifyGet_ok.1 h
  simp only [Prod.mk.injEq] at h'
  obtain ⟨rfl, rfl⟩ := h'
  exact ⟨rfl, Machine.core_files_insert m id _⟩

theorem useFile_quiet {α : Type} {id : FileId} {f : File → α × File} {a : α}
    (hf : ∀ file, (f file).2.face = file.face) (h : useFile id f m = .ok a m') :
    m'.core = m.core := by
  rw [(useFile_core h).2, hf]
  exact Core.setFile_self m.core id

theorem openFile_core {id : FileId} (h : openFile id m = .ok u m') : m'.core = m.core :=
  useFile_quiet (fun _ => rfl) h

theorem closeFile_core {id : FileId} (h : closeFile id m = .ok u m') : m'.core = m.core :=
  useFile_quiet (fun _ => rfl) h

theorem File.face_reopen (file : File) : file.reopen.2.face = file.face := by
  unfold File.reopen
  dsimp only
  split <;> rfl

theorem reopen_core {id : FileId} {granted : Bool} (h : useFile id File.reopen m = .ok granted m') :
    m'.core = m.core :=
  useFile_quiet File.face_reopen h

theorem tick_ok {now : Nat} (h : tick m = .ok now m') :
    now = m.clock + 1 ∧ m' = { m with clock := m.clock + 1 } := by
  replace h := bind_get_ok.1 h
  obtain ⟨_, _, hadd, h⟩ := bind_ok.1 h
  unfold checkedAdd at hadd
  split at hadd
  · obtain ⟨rfl, rfl⟩ := pure_ok.1 hadd
    obtain ⟨_, hmod, rfl⟩ := bind_pure_ok.1 h
    exact ⟨rfl, (modify_ok.1 hmod).symm⟩
  · exact (throw_ok.1 hadd).elim

theorem page?_core {found : Option Page} (h : page? ref m = .ok found m') :
    found = m.core.pages.find? ref ∧ m = m' := by
  replace h := bind_get_ok.1 h
  obtain ⟨rfl, rfl⟩ := pure_ok.1 h
  exact ⟨rfl, rfl⟩

theorem setPage_core (h : setPage ref page m = .ok u m') : m'.core = m.core.setPage ref page := by
  obtain rfl := modify_ok.1 h
  rfl

theorem dropPage_core (h : dropPage ref m = .ok u m') :
    m'.core = { m.core with pages := m.core.pages.erase ref } := by
  obtain rfl := modify_ok.1 h
  rfl

theorem touch_ok {page' : Page} (h : touch ref page m = .ok page' m') :
    page' = { page with lastAccess := m.clock + 1 } ∧
      m' = { m with clock := m.clock + 1, pages := m.pages.insert ref page' } := by
  obtain ⟨now, m₁, h₁, h⟩ := bind_ok.1 h
  obtain ⟨rfl, rfl⟩ := tick_ok h₁
  obtain ⟨_, h₂, rfl⟩ := bind_pure_ok.1 h
  exact ⟨rfl, (modify_ok.1 h₂).symm⟩

theorem touch_core {page' : Page} (h : touch ref page m = .ok page' m') :
    page' = { page with lastAccess := m.core.clock + 1 } ∧ m'.core = m.core.stamp ref page := by
  obtain ⟨rfl, rfl⟩ := touch_ok h
  exact ⟨rfl, rfl⟩

theorem readPhys_core {phys : PhysPage} {bytes : PageBytes} (h : readPhys phys m = .ok bytes m') :
    bytes = m.core.memory.read phys ∧ m = m' := by
  replace h := bind_get_ok.1 h
  obtain ⟨rfl, rfl⟩ := pure_ok.1 h
  exact ⟨rfl, rfl⟩

theorem writePhys_core {phys : PhysPage} {bytes : PageBytes} (h : writePhys phys bytes m = .ok u m') :
    m'.core = m.core.write phys bytes := by
  obtain rfl := modify_ok.1 h
  rfl

theorem askInstall_core {s : SpaceId} {granted : Bool} (h : askInstall s m = .ok granted m') :
    m'.core = m.core ∧ (granted = false → ∃ k, m.core.grants s k = false) := by
  have h' := modifyGet_ok.1 h
  simp only [Prod.mk.injEq] at h'
  obtain ⟨rfl, rfl⟩ := h'
  have hg : (fun t => (((m.installs.insert s ((m.installs.find? s).getD (.always true)).next.2).find?
      t).getD (.always true)).reply) =
        fun t => ((m.installs.find? t).getD (.always true)).reply := by
    funext t
    by_cases ht : s = t
    · subst ht
      simp [Table.find?_insert, Replies.next]
    · simp [Table.find?_insert, ht]
  refine ⟨?_, fun hk => ⟨_, hk⟩⟩
  simp only [Machine.core, hg]
  rfl

theorem install_core {phys : PhysPage} {writable granted : Bool}
    (h : install entry phys writable m = .ok granted m') :
    (granted = true ∧ m'.core = m.core.map entry ⟨phys, writable, false⟩) ∨
      (granted = false ∧ m'.core = m.core ∧ ∃ k, m.core.grants entry.space k = false) := by
  obtain ⟨asked, m₁, h₁, h⟩ := bind_ok.1 h
  obtain ⟨hask, hno⟩ := askInstall_core h₁
  cases asked with
  | true =>
      obtain ⟨_, _, h₂, h⟩ := bind_ok.1 h
      obtain rfl := modify_ok.1 h₂
      obtain ⟨rfl, rfl⟩ := pure_ok.1 h
      refine .inl ⟨rfl, ?_⟩
      change m₁.core.map entry _ = _
      rw [hask]
  | false =>
      obtain ⟨rfl, rfl⟩ := pure_ok.1 h
      exact .inr ⟨rfl, hask, hno rfl⟩

theorem install_granted {phys : PhysPage} {writable : Bool}
    (h : install entry phys writable m = .ok true m') :
    m'.core = m.core.map entry ⟨phys, writable, false⟩ := by
  rcases install_core h with ⟨-, hm'⟩ | ⟨no, -⟩
  · exact hm'
  · exact nomatch no

theorem install_refused {phys : PhysPage} {writable : Bool}
    (h : install entry phys writable m = .ok false m') :
    m'.core = m.core ∧ ∃ k, m.core.grants entry.space k = false := by
  rcases install_core h with ⟨yes, -⟩ | ⟨-, refused⟩
  · exact nomatch yes
  · exact refused

theorem clearMapping_core (h : clearMapping entry m = .ok u m') : m'.core = m.core.unmap entry := by
  obtain rfl := modify_ok.1 h
  rfl

theorem isDirty_core {dirty : Bool} (h : isDirty entry m = .ok dirty m') :
    dirty = m.core.dirty entry ∧ m = m' := by
  replace h := bind_get_ok.1 h
  have hc : m.core.mappings.find? entry = m.mappings.find? entry := rfl
  simp only [Core.dirty, hc]
  cases hm : m.mappings.find? entry with
  | some mapping =>
      simp only [hm] at h
      exact ⟨(pure_ok.1 h).1.symm, (pure_ok.1 h).2⟩
  | none =>
      simp only [hm] at h
      exact ⟨(pure_ok.1 h).1.symm, (pure_ok.1 h).2⟩

theorem setDirty_core {dirty : Bool} (h : setDirty entry dirty m = .ok u m') :
    m'.core = { m.core with mappings := m.core.mappings.modify entry ({ · with dirty }) } := by
  obtain rfl := modify_ok.1 h
  rfl

theorem remap_core {phys : PhysPage} {writable done : Bool}
    (h : remap entry phys writable m = .ok done m') :
    (done = true ∧ m'.core = m.core.map entry ⟨phys, writable, m.core.dirty entry⟩) ∨
      (done = false ∧ m'.core = m.core ∧ ∃ k, m.core.grants entry.space k = false) := by
  obtain ⟨dirty, _, h₁, h⟩ := bind_ok.1 h
  obtain ⟨rfl, rfl⟩ := isDirty_core h₁
  obtain ⟨granted, m₁, h₂, h⟩ := bind_ok.1 h
  rcases install_core h₂ with ⟨rfl, hinst⟩ | ⟨rfl, hinst, hno⟩
  · obtain ⟨_, h₃, rfl⟩ := bind_pure_ok.1 h
    refine .inl ⟨rfl, ?_⟩
    rw [setDirty_core h₃, hinst]
    simp only [Core.map, Table.insert_modify]
  · obtain ⟨rfl, rfl⟩ := pure_ok.1 h
    exact .inr ⟨rfl, hinst, hno⟩

theorem remap_done {phys : PhysPage} {writable : Bool}
    (h : remap entry phys writable m = .ok true m') :
    m'.core = m.core.map entry ⟨phys, writable, m.core.dirty entry⟩ := by
  rcases remap_core h with ⟨-, hm'⟩ | ⟨no, -⟩
  · exact hm'
  · exact nomatch no

theorem remap_refused {phys : PhysPage} {writable : Bool}
    (h : remap entry phys writable m = .ok false m') :
    m'.core = m.core ∧ ∃ k, m.core.grants entry.space k = false := by
  rcases remap_core h with ⟨yes, -⟩ | ⟨-, refused⟩
  · exact nomatch yes
  · exact refused

end DemandPaging
