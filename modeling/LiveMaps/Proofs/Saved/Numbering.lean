import LiveMaps.Proofs.Saved.Folder

namespace LiveMaps

namespace SavedState

-- The directory's store goes on with what it could not write down.
inductive Stored : SavedState → Prop where
  | empty : Stored .empty
  | call {s} (c : StoreCall) : Stored s → Stored (s.call c).1
  | opened {tree root s next} : DirectoryStore.openAt tree root = (.ok s,next) → Stored s.data
  | asked {s : DirectoryStore} (faults tree) (c : StoreCall) : Stored s.data →
      Stored (s.call faults tree c).1.data

variable {s : SavedState}

theorem Numbered.call (numbered : s.Numbered) (c : StoreCall) : (s.call c).1.Numbered := by
  cases c with
  | saveInstance record =>
    simp only [SavedState.call]
    cases saved : s.saveInstance? record with
    | none => exact numbered
    | some next => exact numbered.saveInstance saved
  | removeInstance id => exact numbered.removeInstance id
  | saveRespawn | saveCorpse | removeCorpse => exact ⟨numbered.ascending,numbered.proper⟩
  | instances | highestId | respawns | corpses => exact numbered

end SavedState

namespace DirectoryStore
variable {tree next : FileTree} {root : Route}

-- Of several records under one identifier the last is read; a record under the identifier
-- of base maps is not.
theorem readState_numbered {s : SavedState} (read : readState tree root = .ok s) : s.Numbered := by
  unfold readState at read
  simp only [bind,Except.bind] at read
  split at read
  · cases read
  · rename_i records _
    cases base : records.any (fun r => r.id.isBase) with
    | true =>
      rw [base] at read
      cases read
    | false =>
      rw [base] at read
      simp only [Bool.false_eq_true,if_false,pure,Except.pure] at read
      split at read
      · cases read
      · split at read
        · cases read
        · cases read
          refine ⟨Ordered.insertAll_ascending .nil records,fun r member => ?_⟩
          have among := (Ordered.mem_of_insertAll member).resolve_right List.not_mem_nil
          exact eq_false_of_ne_true (List.any_eq_false.mp base r among)

theorem openAt_numbered {s : DirectoryStore} (opened : openAt tree root = (.ok s,next)) : s.data.Numbered := by
  unfold openAt at opened
  split at opened
  · cases opened
  · rename_i made _
    split at opened
    · cases opened
    · rename_i laid _
      cases read : readState laid root with
      | error e => simp [read,Except.map] at opened
      | ok data =>
        simp only [read,Except.map,Prod.mk.injEq,Except.ok.injEq] at opened
        rw [←opened.1]
        exact readState_numbered read

theorem call_data (faults : Faults) (s : DirectoryStore) (tree : FileTree) (c : StoreCall) :
    (s.call faults tree c).1.data = (s.data.call c).1 := by
  cases c with
  | saveInstance record =>
    simp only [call,SavedState.call,saveInstance]
    cases s.data.saveInstance? record with
    | none => rfl
    | some data => simp only [commit_eq]
  | removeInstance id => simp only [call,commit_eq,(removeInstance_parts s id).1,SavedState.call]
  | saveRespawn entry => simp only [call,commit_eq,saveRespawn,SavedState.call]
  | saveCorpse entry => simp only [call,commit_eq,saveCorpse,SavedState.call]
  | removeCorpse owner => simp only [call,commit_eq,(removeCorpse_parts s owner).1,SavedState.call]
  | instances | highestId | respawns | corpses => rfl

end DirectoryStore

namespace SavedState
variable {s : SavedState}

theorem Stored.numbered (stored : s.Stored) : s.Numbered := by
  induction stored with
  | empty => exact ⟨.nil,nofun⟩
  | call c _ ih => exact ih.call c
  | opened read => exact DirectoryStore.openAt_numbered read
  | asked faults tree c _ ih =>
    rw [DirectoryStore.call_data]
    exact ih.call c

theorem order_le_highestId {r : InstanceRecord} (member : r ∈ s.instances) : r.order ≤ s.highestId := by
  exact List.le_max?_getD_of_mem (List.mem_map_of_mem member)

theorem highestId_attained (s : SavedState) : s.highestId = 0 ∨ ∃ r ∈ s.instances, r.order = s.highestId := by
  unfold highestId
  cases top : (s.instances.map InstanceRecord.order).max? with
  | none => exact .inl rfl
  | some highest => exact .inr (List.mem_map.mp (List.max?_mem top))

end SavedState
end LiveMaps
