import Mathlib.Data.List.Pairwise
import FileRelay.Proofs.Ownership

/-!
# The ids of a mount

Nobody but its requests and its open files uses the id pool of a mount.  So in every
state of every run the ids in use are exactly those that they own, however far the counter
has come.

What this does not give is that the id of the request that opened a file stays with the
file.  It is free between the moment at which the request leaves the ledger and the moment
at which the file is recorded, and whoever takes it meanwhile has it.
-/

namespace FileRelay.State

variable {s t : State} {settings : MountSettings} {link : Link} {timersRun : Bool}
  {firstId : UInt32} {horizon : Nat}

/-- The ids in use are those owned, each by one owner; whatever is stored is stored beside
the rest, and whatever is freed was in use. -/
structure ExactlyOwned (s : State) : Prop where
  exact : s.pool.live.Perm s.ownedIds
  disjoint : s.ownedIds.Nodup
  zero : 0 ∉ s.ownedIds
  idle : s.ledger.entries = [] → s.openFiles = [] → s.pool.liveCount = 0
  /-- A request is registered beside all others, under an id that nobody owns. -/
  register : ∀ (rest : List Task) (kind : Request.Kind) (timeout : Option Nat) (accepting : Bool)
    (owner : Owner) (t : State) (key : RequestKey),
    ({ s with agenda := rest } : State).register? kind timeout accepting owner = some (t, key) →
      key.id.val ∉ s.ownedIds ∧ ∃ p : Pending, p.key = key ∧
        t.ledger.entries = s.ledger.entries ++ [p]
  /-- A file is recorded beside all others, under an id that nobody owns. -/
  record : ∀ (rest : List Task) (openedBy : RequestId) (path : String) (mode : OpenMode) (t : State)
    (id : HandleId),
    ({ s with agenda := rest } : State).registerFile? openedBy path mode =
        some (t, .ok (.file id)) →
      id.val ∉ s.ownedIds ∧ ∃ file : OpenFile, file.id = id ∧
        t.openFiles.Perm (file :: s.openFiles)
  /-- The id of a request is freed when it leaves the ledger. -/
  pull : ∀ p ∈ s.ledger.entries, s.pool.live.Perm (p.id.val :: (s.pull p).pool.live)
  /-- The ids of all requests are freed when they are shut down. -/
  drain : ∀ after : List Task,
    s.pool.live.Perm (s.ledger.entries.map (·.id.val) ++ (s.drain after).pool.live)
  /-- The ids of a file are freed when it leaves the table. -/
  remove : ∀ (m : Mount) (id : HandleId) (file : OpenFile) (files : OpenFiles) (pool : IdPool),
    s.mount = some m → m.files.remove? s.pool id = some (file, files, pool) →
      s.pool.live.Perm (file.ownedIds ++ pool.live)
  /-- The ids of all files are freed when the table is emptied. -/
  clear : ∀ m : Mount, s.mount = some m →
    s.pool.live.Perm (s.openFiles.flatMap OpenFile.ownedIds ++ (m.files.releaseAll s.pool).live)

/-- What recording a file does, if the mount is there and up. -/
theorem registerFile?_spec {openedBy : RequestId} {path : String} {mode : OpenMode} {id : HandleId}
    (h : s.registerFile? openedBy path mode = some (t, .ok (.file id))) :
    ∃ m files pool, s.mount = some m ∧
      m.files.add? s.pool path mode openedBy = some (id, files, pool) ∧
      t = { s with pool, mount := some { m with files } } := by
  unfold State.registerFile? at h
  cases hm : s.mount? with
  | none =>
    rw [hm] at h
    cases h
  | some m =>
    rw [hm] at h
    dsimp only at h
    split at h
    · split at h
      · cases h
      · rename_i added
        cases h
        exact ⟨m, _, _, Option.eq_some_of_filter_eq_some hm, added, rfl⟩
    · cases h

/-- Whatever of the ids owned is freed leaves the ids in use, and nothing else does. -/
theorem Accounted.perm_freed (hs : s.Accounted) {ids : List UInt32} (nodup : ids.Nodup)
    (sub : ids ⊆ s.ownedIds) : s.pool.live.Perm (ids ++ (s.pool.releaseAll ids).live) :=
  hs.sound.live_perm_releaseAll nodup fun id hid => hs.live id (sub hid)

theorem pool_drain (s : State) (after : List Task) :
    (s.drain after).pool = s.pool.releaseAll (s.ledger.entries.map (·.id.val)) := by
  unfold State.drain
  dsimp only
  split <;> rfl

theorem Accounted.perm_ownedIds (hs : s.Accounted) (separate : s.callerPool.isSome)
    (alive : s.managerAlive) : s.pool.live.Perm s.ownedIds := by
  rw [List.perm_ext_iff_of_nodup hs.sound.nodup hs.nodup]
  intro id
  exact ⟨hs.owned separate alive id, hs.live id⟩

theorem Accounted.exactlyOwned (hs : s.Accounted) (separate : s.callerPool.isSome)
    (alive : s.managerAlive) : s.ExactlyOwned where
  exact := hs.perm_ownedIds separate alive
  disjoint := hs.nodup
  zero := fun zero => hs.sound.zero (hs.live 0 zero)
  idle := by
    intro he hf
    rw [IdPool.liveCount, (hs.perm_ownedIds separate alive).length_eq, ownedIds, he, hf]
    rfl
  register := by
    intro rest kind timeout accepting owner t key hr
    obtain ⟨p, rfl, -, -, drawn, ledger, -⟩ := register?_spec hr
    refine ⟨hs.fresh drawn, p, rfl, ?_⟩
    rw [ledger]
    exact hs.entries_insert drawn
  record := by
    intro rest openedBy path mode t id hr
    obtain ⟨m, after, pool, hm, added, rfl⟩ := registerFile?_spec hr
    obtain ⟨file, rfl, -, -, perm, -, -, free, -⟩ := hs.files_add hm added
    have fresh : file.id.val ∉ s.pool.live := free _ (mem_ownedIds_id file)
    exact ⟨fun owned => fresh (hs.live _ owned), file, rfl, perm⟩
  pull := by
    intro p hp
    have single : [p.id.val].Nodup := List.nodup_singleton _
    refine hs.perm_freed single fun id hid => (requests_sublist s).subset ?_
    rw [List.mem_singleton.1 hid]
    exact List.mem_map.2 ⟨p, hp, rfl⟩
  drain := by
    intro after
    rw [pool_drain]
    exact hs.perm_freed (hs.nodup.sublist (requests_sublist s)) (requests_sublist s).subset
  remove := by
    intro m id file after pool hm removed
    obtain ⟨mem, -, -, rfl⟩ := OpenFiles.remove?_spec removed
    rw [← openFiles_of_mount hm] at mem
    have nodup := (List.nodup_flatMap.1 (hs.nodup.sublist (files_sublist s))).1 file mem
    refine hs.perm_freed nodup fun id hid => (files_sublist s).subset ?_
    exact List.mem_flatMap.2 ⟨file, mem, hid⟩
  clear := by
    intro m hm
    rw [OpenFiles.releaseAll_eq, ← openFiles_of_mount hm]
    exact hs.perm_freed (hs.nodup.sublist (files_sublist s)) (files_sublist s).subset

/-- An id leaves the ids in use only with its last owner. -/
theorem count_of_freed {id : UInt32} (hs : s.ExactlyOwned) (ht : t.ExactlyOwned)
    (used : id ∈ s.pool.live) (free : id ∉ t.pool.live) :
    s.ownedIds.count id = 1 ∧ t.ownedIds.count id = 0 := by
  constructor
  · exact List.count_eq_one_of_mem hs.disjoint (hs.exact.mem_iff.1 used)
  · rw [List.count_eq_zero]
    exact fun hid => free (ht.exact.mem_iff.2 hid)

/-- In every state of every run of a mount the ids in use are exactly those of the
outstanding requests, those of the open files, and those of their openers that open files
keep, all different and none of them zero, as long as there are the ledger and the table
to own them.  In no step is an id freed that somebody owns before and after it. -/
theorem mount_ids_exactly_owned
    (reached : Reaches (ofMount settings link timersRun firstId horizon) s)
    (alive : s.managerAlive) :
    s.ExactlyOwned ∧ ∀ t, Next s t → t.managerAlive → ∀ id ∈ s.pool.live, id ∉ t.pool.live →
      s.ownedIds.count id = 1 ∧ t.ownedIds.count id = 0 := by
  have start : Start (ofMount settings link timersRun firstId horizon) :=
    .mount settings link timersRun firstId horizon
  have owned : ∀ u, Reaches (ofMount settings link timersRun firstId horizon) u → u.managerAlive →
      u.ExactlyOwned := by
    intro u hu alive
    refine (hu.sane start.sane).accounted.exactlyOwned ?_ alive
    rw [hu.shared_eq start.sane]
    rfl
  refine ⟨owned s reached alive, ?_⟩
  intro t next alive' id used free
  exact count_of_freed (owned s reached alive) (owned t (reached.tail next) alive') used free

/-- A mount with one open file: both its ids are owned. -/
theorem mount_ids_exactly_owned_of_open :
    ∃ s, Reaches (ofMount { info := { providerId := "p", fileSystemId := "f", displayName := "d" } }
      (.direct {}) true) s ∧ s.pool.live = [1, 2] ∧ s.pool.live.Perm s.ownedIds := by
  have run : ((ofMount { info := { providerId := "p", fileSystemId := "f", displayName := "d" } }
      (.direct {}) true).follow?
        (.call (.operate (.openFile "/a" .read) none []) ⟨0⟩ :: List.replicate 7 .work ++
          .call (.deliver (.given ⟨1⟩) (.success .nothing)) ⟨0⟩ :: List.replicate 8 .work)).any
        fun s => s.managerAlive && s.pool.live == [1, 2] := by
    decide +kernel
  rw [Option.any_eq_true] at run
  obtain ⟨s, hs, run⟩ := run
  rw [Bool.and_eq_true, beq_iff_eq] at run
  have reached := reaches_of_follow? hs
  exact ⟨s, reached, run.2, (mount_ids_exactly_owned reached run.1).1.exact⟩

/-! ## The id of an opener -/

/-- Every open file is the only one that the provider can mean by the id of its opener: the
id is in use, no outstanding request has it, and no other open file has the same. -/
structure ExclusiveOpeners (s : State) : Prop where
  live : ∀ file ∈ s.openFiles, file.openedBy.val ∈ s.pool.live
  apart : ∀ file ∈ s.openFiles, ∀ p ∈ s.ledger.entries, p.id ≠ file.openedBy
  distinct : (s.openFiles.map (·.openedBy)).Nodup

section openers

variable {file other : OpenFile}

theorem Accounted.disjoint_ids (hs : s.Accounted) :
    List.Disjoint (s.ledger.entries.map (·.id.val)) (s.openFiles.flatMap OpenFile.ownedIds) := by
  intro id hp hf
  exact (List.nodup_append.1 hs.nodup).2.2 id hp id hf rfl

theorem mem_ownedIds_opener (holds : file.holdsOpener) : file.openedBy.val ∈ file.ownedIds := by
  rw [OpenFile.ownedIds, if_pos holds]
  exact List.mem_cons_of_mem _ (List.mem_singleton_self _)

/-- An id that open files keep is not that of an outstanding request. -/
theorem Accounted.apart_of_owned (hs : s.Accounted) (mem : file ∈ s.openFiles) {id : UInt32}
    (owned : id ∈ file.ownedIds) : ∀ p ∈ s.ledger.entries, p.id.val ≠ id := by
  rintro p hp rfl
  refine hs.disjoint_ids ?_ (List.mem_flatMap.2 ⟨file, mem, owned⟩)
  exact List.mem_map.2 ⟨p, hp, rfl⟩

/-- An id has one open file that keeps it at most. -/
theorem Accounted.eq_of_owned (hs : s.Accounted) (mem : file ∈ s.openFiles)
    (mem' : other ∈ s.openFiles) {id : UInt32} (owned : id ∈ file.ownedIds)
    (owned' : id ∈ other.ownedIds) : other = file := by
  have apart := (List.nodup_flatMap.1 (List.nodup_append.1 hs.nodup).2.1).2
  have symm : Std.Symm (Function.onFun List.Disjoint OpenFile.ownedIds) :=
    ⟨fun _ _ h _ hx hy => h hy hx⟩
  by_cases same : other = file
  · exact same
  · exact (apart.forall mem' mem same owned' owned).elim

/-- A file that keeps the id of its opener has it to itself, but for files that do not keep
theirs. -/
theorem Accounted.opener_of_holds (hs : s.Accounted) (mem : file ∈ s.openFiles)
    (holds : file.holdsOpener) :
    file.openedBy.val ∈ s.pool.live ∧ (∀ p ∈ s.ledger.entries, p.id ≠ file.openedBy) ∧
      ∀ other ∈ s.openFiles, other.holdsOpener → other.openedBy = file.openedBy →
        other = file := by
  have owned := mem_ownedIds_opener holds
  refine ⟨?_, ?_, ?_⟩
  · exact hs.live _ (List.mem_append_right _ (List.mem_flatMap.2 ⟨file, mem, owned⟩))
  · intro p hp he
    exact hs.apart_of_owned mem owned p hp (congrArg RequestId.val he)
  · intro other mem' holds' he
    have owned' := mem_ownedIds_opener holds'
    rw [he] at owned'
    exact hs.eq_of_owned mem mem' owned owned'

/-- Every open file has the id of its opener to itself exactly if every file that does not
keep it stands under a number that is the handle id of an open file, and shares it with no
other file as the id of its opener. -/
theorem Accounted.exclusive_iff (hs : s.Accounted) (separate : s.callerPool.isSome)
    (alive : s.managerAlive) :
    s.ExclusiveOpeners ↔ ∀ file ∈ s.openFiles, file.holdsOpener = false →
      (∃ other ∈ s.openFiles, other.id.val = file.openedBy.val) ∧
        ∀ other ∈ s.openFiles, other.openedBy = file.openedBy → other = file := by
  have files : s.openFiles.Nodup := hs.nodup_handles.of_map
  constructor
  · intro h file mem loose
    have alone : ∀ other ∈ s.openFiles, other.openedBy = file.openedBy → other = file :=
      fun other mem' he => List.inj_on_of_nodup_map h.distinct mem' mem he
    refine ⟨?_, alone⟩
    -- The id is in use, so somebody owns it: no request, and no other file as its opener's.
    rcases List.mem_append.1 (hs.owned separate alive _ (h.live file mem)) with hp | hf
    · obtain ⟨p, hp, he⟩ := List.mem_map.1 hp
      exact (h.apart file mem p hp (congrArg RequestId.mk he)).elim
    · obtain ⟨other, mem', owned⟩ := List.mem_flatMap.1 hf
      rw [OpenFile.ownedIds, List.mem_cons] at owned
      rcases owned with he | owned
      · exact ⟨other, mem', he.symm⟩
      · split at owned
        · rename_i holds
          have he := congrArg RequestId.mk (List.mem_singleton.1 owned)
          rw [alone other mem' he.symm, loose] at holds
          cases holds
        · cases owned
  · intro h
    refine ⟨?_, ?_, ?_⟩
    · intro file mem
      cases holds : file.holdsOpener with
      | true => exact (hs.opener_of_holds mem holds).1
      | false =>
        obtain ⟨other, mem', he⟩ := (h file mem holds).1
        rw [← he]
        refine hs.live _ (List.mem_append_right _ (List.mem_flatMap.2 ⟨other, mem', ?_⟩))
        exact mem_ownedIds_id other
    · intro file mem p hp he
      cases holds : file.holdsOpener with
      | true => exact (hs.opener_of_holds mem holds).2.1 p hp he
      | false =>
        obtain ⟨other, mem', ho⟩ := (h file mem holds).1
        refine hs.apart_of_owned mem' (mem_ownedIds_id other) p hp ?_
        rw [ho, he]
    · rw [List.nodup_map_iff_inj_on files]
      intro file mem other mem' he
      cases holds : file.holdsOpener with
      | false => exact ((h file mem holds).2 other mem' he.symm).symm
      | true =>
        cases holds' : other.holdsOpener with
        | false => exact (h other mem' holds').2 file mem he
        | true => exact ((hs.opener_of_holds mem holds).2.2 other mem' holds' he.symm).symm

end openers

/-- When the ids of openers are exclusive.  A file keeps the id of its opener exactly if
nobody has taken it by the time that the file is recorded, its own handle id included.
From then on no request is given that id while the file is open.  If each file keeps its
own, they are exclusive; otherwise only while each number that is not kept is an open
handle id, and no other file's opener. -/
theorem openers_exclusive_iff
    (reached : Reaches (ofMount settings link timersRun firstId horizon) s)
    (alive : s.managerAlive) :
    (s.ExclusiveOpeners ↔ ∀ file ∈ s.openFiles, file.holdsOpener = false →
      (∃ other ∈ s.openFiles, other.id.val = file.openedBy.val) ∧
        ∀ other ∈ s.openFiles, other.openedBy = file.openedBy → other = file) ∧
    (∀ file ∈ s.openFiles, file.holdsOpener →
      file.openedBy.val ∈ s.pool.live ∧ ∀ p ∈ s.ledger.entries, p.id ≠ file.openedBy) ∧
    ∀ (rest : List Task) (openedBy : RequestId) (path : String) (mode : OpenMode) (t : State)
      (id : HandleId),
      ({ s with agenda := rest } : State).registerFile? openedBy path mode =
          some (t, .ok (.file id)) →
        ∃ file ∈ t.openFiles, file.id = id ∧ file.openedBy = openedBy ∧
          (file.holdsOpener ↔
            openedBy.val ≠ 0 ∧ openedBy.val ≠ id.val ∧ openedBy.val ∉ s.pool.live) := by
  have start : Start (ofMount settings link timersRun firstId horizon) :=
    .mount settings link timersRun firstId horizon
  have hs := (reached.sane start.sane).accounted
  have separate : s.callerPool.isSome := by
    rw [reached.shared_eq start.sane]
    rfl
  refine ⟨hs.exclusive_iff separate alive, ?_, ?_⟩
  · intro file mem holds
    have owned := hs.opener_of_holds mem holds
    exact ⟨owned.1, owned.2.1⟩
  · intro rest openedBy path mode t id hr
    obtain ⟨m, after, pool, hm, added, rfl⟩ := registerFile?_spec hr
    obtain ⟨file, hid, opener, holds, perm, -⟩ := hs.files_add hm added
    exact ⟨file, perm.mem_iff.2 List.mem_cons_self, hid, opener, holds⟩

/-- A mount with one open file, recorded before anybody took the id of its opener. -/
theorem openers_exclusive_iff_of_open :
    ∃ s, Reaches (ofMount { info := { providerId := "p", fileSystemId := "f", displayName := "d" } }
      (.direct {}) true) s ∧ s.openFiles.length = 1 ∧ s.ExclusiveOpeners := by
  have run : ((ofMount { info := { providerId := "p", fileSystemId := "f", displayName := "d" } }
      (.direct {}) true).follow?
        (.call (.operate (.openFile "/a" .read) none []) ⟨0⟩ :: List.replicate 7 .work ++
          .call (.deliver (.given ⟨1⟩) (.success .nothing)) ⟨0⟩ :: List.replicate 8 .work)).any
        fun s => s.managerAlive && s.openFiles.length == 1 && s.openFiles.all (·.holdsOpener) := by
    decide +kernel
  rw [Option.any_eq_true] at run
  obtain ⟨s, hs, run⟩ := run
  rw [Bool.and_eq_true, Bool.and_eq_true, beq_iff_eq, List.all_eq_true] at run
  obtain ⟨⟨alive, one⟩, all⟩ := run
  have reached := reaches_of_follow? hs
  refine ⟨s, reached, one, (openers_exclusive_iff reached alive).1.2 ?_⟩
  intro file mem loose
  rw [all file mem] at loose
  cases loose

/-- Between the end of the request that opens a file and the recording of the file, another
request takes its id: then the file and the request share it. -/
theorem openers_not_exclusive :
    ∃ s, Reaches (ofMount { info := { providerId := "p", fileSystemId := "f", displayName := "d" } }
      (.direct {}) true) s ∧ s.managerAlive ∧ ¬ s.ExclusiveOpeners := by
  have run : ((ofMount { info := { providerId := "p", fileSystemId := "f", displayName := "d" } }
      (.direct {}) true).follow?
        (.call (.operate (.openFile "/a" .read) none []) ⟨0⟩ :: List.replicate 7 .work ++
          [.call (.onFinish [.operate (.getMetadata "/b") none []]) ⟨0⟩, .work, .rewind 1,
            .call (.deliver (.given ⟨1⟩) (.success .nothing)) ⟨0⟩] ++ List.replicate 10 .work)).any
        fun s => s.managerAlive && s.openFiles.any fun file =>
          s.ledger.entries.any fun p => p.id = file.openedBy := by
    decide +kernel
  rw [Option.any_eq_true] at run
  obtain ⟨s, hs, run⟩ := run
  rw [Bool.and_eq_true, List.any_eq_true] at run
  obtain ⟨alive, file, mem, shared⟩ := run
  rw [List.any_eq_true] at shared
  obtain ⟨p, hp, same⟩ := shared
  refine ⟨s, reaches_of_follow? hs, alive, ?_⟩
  intro exclusive
  exact exclusive.apart file mem p hp (by simpa using same)

end FileRelay.State
