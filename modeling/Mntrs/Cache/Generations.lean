import Mntrs.Base.Machine
import Mntrs.Fs.Write

/-!
# Generations of the block cache

A block-cache job carries the generation its path had when it was submitted, an invalidation
of the path gives it a new one, and a job whose generation is no longer the path's writes
nothing (`src/src/disk_write_pool.rs:168-286`, `974-991`). The table of generations is cleared
when it is full, and then counts from the start again. `GenSys` is the pool with the history
that matters: for every queued job whether its path was invalidated since it was submitted.
-/

namespace Mntrs

open Base

variable {job : BlockCacheJob} {fs : MntrsFs} {i : Nat} {path : Path}

/-! ### The generation of a path after an invalidation -/

theorem pathCacheGen_bump_of_ne {q : Path} (hne : q ≠ path) :
    pathCacheGen (bumpPathCacheGen fs path) q =
      if fs.pathCacheGen.entries.length < pathCacheGenHardCap then pathCacheGen fs q else 0 := by
  simp only [pathCacheGen, bumpPathCacheGen]
  split
  · rw [AList.lookup_insert_ne hne]
  · rw [AList.lookup_insert_ne hne]
    rfl

theorem pathCacheGen_bump_self (fs : MntrsFs) (path : Path) :
    pathCacheGen (bumpPathCacheGen fs path) path =
      if fs.pathCacheGen.entries.length < pathCacheGenHardCap then pathCacheGen fs path + 1
      else 1 := by
  simp only [pathCacheGen, bumpPathCacheGen]
  split
  · rw [AList.lookup_insert]
    cases fs.pathCacheGen.lookup path <;> rfl
  · rw [AList.lookup_insert]
    rfl

/-- The generations of an invalidation are those of its bump. -/
theorem pathCacheGen_invalidateBlocks (cfg : Config) (fs : MntrsFs) (path q : Path) (ino : Ino) :
    pathCacheGen (invalidateBlocks cfg fs path ino) q =
      pathCacheGen (bumpPathCacheGen fs path) q := by
  simp only [invalidateBlocks]
  rw [dropBlockCacheForPath_frame]
  rfl

/-- An invalidation keeps the queued jobs. -/
theorem blockCachePool_invalidateBlocks (cfg : Config) (fs : MntrsFs) (path : Path) (ino : Ino) :
    (invalidateBlocks cfg fs path ino).blockCachePool = fs.blockCachePool := by
  obtain ⟨_, _, _, _, hframe⟩ := invalidateBlocks_frame cfg fs path ino
  rw [hframe]

/-- An invalidation of the path cannot bring back a generation that a queued job captured: below
the cap the path's own generation does not wrap around under a queued job of the path, and a
table that gets cleared knows no path of a queued job. -/
def BumpsPast (fs : MntrsFs) (path : Path) : Prop :=
  if fs.pathCacheGen.entries.length < pathCacheGenHardCap then
    (pathCacheGen fs path).toNat + 1 < 2 ^ 64 ∨
      ∀ job ∈ fs.blockCachePool, job.remotePath ≠ path
  else ∀ job ∈ fs.blockCachePool, fs.pathCacheGen.lookup job.remotePath = none

instance (fs : MntrsFs) (path : Path) : Decidable (BumpsPast fs path) := by
  unfold BumpsPast
  infer_instance

/-- A generation that a queued job captured is at most the one of its path. -/
def Captured (fs : MntrsFs) (job : BlockCacheJob) : Prop :=
  job.cacheGen.toNat ≤ (pathCacheGen fs job.remotePath).toNat

/-- A queued job that a generation of its path has overtaken. -/
def Overtaken (fs : MntrsFs) (job : BlockCacheJob) : Prop :=
  job.cacheGen.toNat < (pathCacheGen fs job.remotePath).toNat

/-- The generation of an overtaken job is not the one of its path. -/
theorem Overtaken.ne (h : Overtaken fs job) : pathCacheGen fs job.remotePath ≠ job.cacheGen := by
  intro heq
  rw [Overtaken, heq] at h
  exact Nat.lt_irrefl _ h

/-- An invalidation of its path overtakes a queued job. -/
theorem BumpsPast.overtaken (h : BumpsPast fs path) (hjob : job ∈ fs.blockCachePool)
    (hpath : job.remotePath = path) (hle : Captured fs job) :
    Overtaken (bumpPathCacheGen fs path) job := by
  unfold Captured at hle
  rw [Overtaken, hpath, pathCacheGen_bump_self]
  rw [hpath] at hle
  unfold BumpsPast at h
  split
  · next hcap =>
    rw [if_pos hcap] at h
    rcases h with hwrap | hnone
    · have hnext : (pathCacheGen fs path + 1).toNat = (pathCacheGen fs path).toNat + 1 := by
        exact Nat.mod_eq_of_lt hwrap
      omega
    · exact absurd hpath (hnone job hjob)
  · next hcap =>
    -- the table is cleared, so the job was submitted for a path without a generation
    rw [if_neg hcap] at h
    have hzero : pathCacheGen fs path = 0 := by
      rw [pathCacheGen, ← hpath, h job hjob]
      rfl
    rw [hzero] at hle
    exact Nat.lt_of_le_of_lt hle (by decide)

theorem BumpsPast.pathCacheGen_eq (h : BumpsPast fs path) (hjob : job ∈ fs.blockCachePool)
    (hpath : job.remotePath ≠ path) :
    pathCacheGen (bumpPathCacheGen fs path) job.remotePath = pathCacheGen fs job.remotePath := by
  rw [pathCacheGen_bump_of_ne hpath]
  unfold BumpsPast at h
  split
  · rfl
  · next hcap =>
    rw [if_neg hcap] at h
    rw [pathCacheGen, h job hjob]
    rfl

theorem poolExecuteBlock_of_overtaken {cfg : Config} (hjob : fs.blockCachePool[i]? = some job)
    (hlt : Overtaken fs job) (now : Nat) :
    poolExecuteBlock cfg fs i now =
      some { fs with blockCachePool := fs.blockCachePool.eraseIdx i } := by
  simp only [poolExecuteBlock, hjob]
  exact if_pos (.inl hlt.ne)

/-! ### Submissions, invalidations and executions -/

/-- The steps: a read submits a block, a path is invalidated, a pool thread executes the job at
a position of the queue. -/
inductive GenLabel where
  | submit (path : Path) (block : Nat) (data : Bytes)
  | invalidate (path : Path) (ino : Ino)
  | execute (i now : Nat)
deriving DecidableEq, Repr

/-- A mount, and its queued block-cache jobs with a flag that says whether the path of the job
was invalidated since it was submitted. The code does not record the flags. -/
structure GenSys where
  fs : MntrsFs
  jobs : List (BlockCacheJob × Bool)

/-- One step. -/
def genStep (cfg : Config) : GenLabel → GenSys → Option GenSys
  | .submit path block data, s =>
    some ⟨submitBlockCacheWrite s.fs path block data,
      s.jobs ++ [(⟨path, block, data, pathCacheGen s.fs path⟩, false)]⟩
  | .invalidate path ino, s =>
    some ⟨invalidateBlocks cfg s.fs path ino,
      s.jobs.map (fun j ↦ (j.1, j.2 || j.1.remotePath = path))⟩
  | .execute i now, s =>
    (poolExecuteBlock cfg s.fs i now).map (fun fs ↦ ⟨fs, s.jobs.eraseIdx i⟩)

/-- Every invalidation leaves the captured generations behind. -/
def Outpaces (s : GenSys) : GenLabel → Prop
  | .invalidate path _ => BumpsPast s.fs path
  | _ => True

instance (s : GenSys) : (l : GenLabel) → Decidable (Outpaces s l)
  | .invalidate path _ => inferInstanceAs (Decidable (BumpsPast s.fs path))
  | .submit _ _ _ => isTrue trivial
  | .execute _ _ => isTrue trivial

/-- The flagged jobs are the queue of the mount, and the flags are backed by generations. -/
structure Tracked (s : GenSys) : Prop where
  pool : s.jobs.map Prod.fst = s.fs.blockCachePool
  captured : ∀ j ∈ s.jobs, Captured s.fs j.1
  overtaken : ∀ j ∈ s.jobs, j.2 = true → Overtaken s.fs j.1

namespace Tracked

variable {cfg : Config} {s t : GenSys}

theorem getElem? (h : Tracked s) {j : BlockCacheJob × Bool} (hj : s.jobs[i]? = some j) :
    s.fs.blockCachePool[i]? = some j.1 := by
  rw [← h.pool, List.getElem?_map, hj]
  rfl

/-- A submission captures the generation of the moment. -/
theorem submit (h : Tracked s) (path : Path) (block : Nat) (data : Bytes) :
    Tracked ⟨submitBlockCacheWrite s.fs path block data,
      s.jobs ++ [(⟨path, block, data, pathCacheGen s.fs path⟩, false)]⟩ where
  pool := by
    simp only [List.map_append, h.pool, submitBlockCacheWrite]
    rfl
  captured := by
    intro j hj
    rcases List.mem_append.mp hj with hold | hnew
    · exact h.captured j hold
    · rw [List.mem_singleton.mp hnew]
      exact Nat.le_refl _
  overtaken := by
    intro j hj hflag
    rcases List.mem_append.mp hj with hold | hnew
    · exact h.overtaken j hold hflag
    · rw [List.mem_singleton.mp hnew] at hflag
      cases hflag

/-- An invalidation overtakes the queued jobs of its path and no other job. -/
theorem invalidate (h : Tracked s) (hbump : BumpsPast s.fs path) (ino : Ino) :
    Tracked ⟨invalidateBlocks cfg s.fs path ino,
      s.jobs.map (fun j ↦ (j.1, j.2 || j.1.remotePath = path))⟩ := by
  have hmem : ∀ j ∈ s.jobs, j.1 ∈ s.fs.blockCachePool := by
    intro j hj
    rw [← h.pool]
    exact List.mem_map_of_mem hj
  have hafter : ∀ j ∈ s.jobs,
      (j.1.remotePath = path → Overtaken (invalidateBlocks cfg s.fs path ino) j.1) ∧
      (j.1.remotePath ≠ path → pathCacheGen (invalidateBlocks cfg s.fs path ino) j.1.remotePath =
        pathCacheGen s.fs j.1.remotePath) := by
    intro j hj
    constructor
    · intro hpath
      rw [Overtaken, pathCacheGen_invalidateBlocks]
      exact hbump.overtaken (hmem j hj) hpath (h.captured j hj)
    · intro hpath
      rw [pathCacheGen_invalidateBlocks]
      exact hbump.pathCacheGen_eq (hmem j hj) hpath
  refine ⟨?_, ?_, ?_⟩
  · rw [blockCachePool_invalidateBlocks, ← h.pool, List.map_map]
    rfl
  · intro j' hj'
    obtain ⟨j, hj, rfl⟩ := List.mem_map.mp hj'
    by_cases hpath : j.1.remotePath = path
    · exact Nat.le_of_lt ((hafter j hj).1 hpath)
    · rw [Captured, (hafter j hj).2 hpath]
      exact h.captured j hj
  · intro j' hj' hflag
    obtain ⟨j, hj, rfl⟩ := List.mem_map.mp hj'
    by_cases hpath : j.1.remotePath = path
    · exact (hafter j hj).1 hpath
    · simp only [hpath, decide_false, Bool.or_false] at hflag
      rw [Overtaken, (hafter j hj).2 hpath]
      exact h.overtaken j hj hflag

/-- An execution takes its job out and keeps the generations. -/
theorem execute (h : Tracked s) {now : Nat} (hexec : poolExecuteBlock cfg s.fs i now = some fs) :
    Tracked ⟨fs, s.jobs.eraseIdx i⟩ := by
  obtain ⟨-, -, disk, rfl, -⟩ := poolExecuteBlock_cases hexec
  have hkept : ∀ j ∈ s.jobs.eraseIdx i, j ∈ s.jobs := fun j hj ↦ List.eraseIdx_subset hj
  refine ⟨?_, fun j hj ↦ h.captured j (hkept j hj), fun j hj ↦ h.overtaken j (hkept j hj)⟩
  rw [← h.pool, List.eraseIdx_map]

/-- Every step that outpaces the captured generations keeps the flags backed. -/
theorem step (h : Tracked s) {l : GenLabel} (hguard : Outpaces s l)
    (hstep : genStep cfg l s = some t) : Tracked t := by
  cases l with
  | submit path block data =>
    cases hstep
    exact h.submit path block data
  | invalidate path ino =>
    cases hstep
    exact h.invalidate hguard ino
  | execute i now =>
    obtain ⟨fs, hexec, rfl⟩ := Option.map_eq_some_iff.mp hstep
    exact h.execute hexec

end Tracked

/-- In every run from a mount without queued blocks in which each invalidation leaves the
captured generations behind, a block-cache job whose path was invalidated after the job was
submitted writes nothing when it is executed. -/
theorem outdated_job_skips_of_run {cfg : Config} {fs : MntrsFs} {s : GenSys}
    (hempty : fs.blockCachePool = []) (hrun : GuardedRun (genStep cfg) Outpaces ⟨fs, []⟩ s)
    {i : Nat} {job : BlockCacheJob} (hjob : s.jobs[i]? = some (job, true)) (now : Nat) :
    poolExecuteBlock cfg s.fs i now =
      some { s.fs with blockCachePool := s.fs.blockCachePool.eraseIdx i } := by
  have hinit : Tracked ⟨fs, []⟩ := ⟨hempty.symm, by simp, by simp⟩
  have htracked := hrun.invariant Tracked (fun _ _ _ h hguard hstep ↦ h.step hguard hstep) hinit
  have hover := htracked.overtaken _ (List.mem_of_getElem? hjob) rfl
  exact poolExecuteBlock_of_overtaken (htracked.getElem? hjob) hover now

/-- A block submitted and then invalidated is not written. -/
theorem outdated_job_skips_of_run_sample :
    ∃ s, GuardedRun (genStep (.plain .full)) Outpaces
        ⟨MntrsFs.mounted (fun _ ↦ none) Disk.empty, []⟩ s ∧
      s.jobs[0]? = some (⟨['p'], 0, [7], 0⟩, true) ∧
      poolExecuteBlock (.plain .full) s.fs 0 0 =
        some { s.fs with blockCachePool := s.fs.blockCachePool.eraseIdx 0 } := by
  obtain ⟨s, hrun, hjob⟩ := exists_guardedRun (genStep (.plain .full)) Outpaces
    (fun s ↦ s.jobs[0]? = some (⟨['p'], 0, [7], 0⟩, true))
    [.submit ['p'] 0 [7], .invalidate ['p'] 2]
    ⟨MntrsFs.mounted (fun _ ↦ none) Disk.empty, []⟩ (by decide) (by decide)
  exact ⟨s, hrun, hjob, outdated_job_skips_of_run rfl hrun hjob 0⟩

/-! ### A full table -/

theorem invalidateBlocks_of_index_empty {fs : MntrsFs} (hindex : fs.diskCacheIndex = ∅)
    (cfg : Config) (path : Path) (ino : Ino) :
    ∃ mem, invalidateBlocks cfg fs path ino =
      { fs with memCache := mem, pathCacheGen := (bumpPathCacheGen fs path).pathCacheGen } := by
  have hnone : (fs.diskCacheIndex.entries.map Sigma.fst).filter
      (fun key ↦ decide (key.1 = path ∧ key.2.isSome)) = [] := by
    rw [hindex]
    rfl
  refine ⟨Function.update fs.memCache ino (fun _ ↦ none), ?_⟩
  simp only [invalidateBlocks, dropBlockCacheForPath, hnone]
  rfl

theorem length_bumpPathCacheGen (hfresh : path ∉ fs.pathCacheGen)
    (hcap : fs.pathCacheGen.entries.length < pathCacheGenHardCap) :
    (bumpPathCacheGen fs path).pathCacheGen.entries.length =
      fs.pathCacheGen.entries.length + 1 := by
  simp only [bumpPathCacheGen, if_pos hcap]
  rw [AList.entries_insert_of_notMem hfresh, List.length_cons]

theorem notMem_bumpPathCacheGen {q : Path} (hne : q ≠ path) (hnot : q ∉ fs.pathCacheGen)
    (hcap : fs.pathCacheGen.entries.length < pathCacheGenHardCap) :
    q ∉ (bumpPathCacheGen fs path).pathCacheGen := by
  simp only [bumpPathCacheGen, if_pos hcap, AList.mem_insert, not_or]
  exact ⟨hne, hnot⟩

theorem map_flag_of_ne {jobs : List (BlockCacheJob × Bool)}
    (h : ∀ j ∈ jobs, j.1.remotePath ≠ path) :
    jobs.map (fun j ↦ (j.1, j.2 || decide (j.1.remotePath = path))) = jobs := by
  conv_rhs => rw [← List.map_id jobs]
  apply List.map_congr_left
  intro j hj
  simp [h j hj]

/-- Invalidations of distinct paths without a generation fill the table up to its cap, and leave
the jobs of other paths alone. -/
theorem exec_invalidations (cfg : Config) (ino : Ino) (ks : List Path) {s : GenSys}
    (hindex : s.fs.diskCacheIndex = ∅) (hnodup : ks.Nodup)
    (hfresh : ∀ k ∈ ks, k ∉ s.fs.pathCacheGen)
    (hjobs : ∀ j ∈ s.jobs, j.1.remotePath ∉ ks)
    (hcap : s.fs.pathCacheGen.entries.length + ks.length ≤ pathCacheGenHardCap) :
    ∃ mem gens, exec (genStep cfg) (ks.map (fun k ↦ .invalidate k ino)) s =
        some ⟨{ s.fs with memCache := mem, pathCacheGen := gens }, s.jobs⟩ ∧
      gens.entries.length = s.fs.pathCacheGen.entries.length + ks.length := by
  induction ks generalizing s with
  | nil => exact ⟨_, _, rfl, rfl⟩
  | cons k ks ih =>
    obtain ⟨hk, hnodup⟩ := List.nodup_cons.mp hnodup
    rw [List.length_cons] at hcap
    have hbelow : s.fs.pathCacheGen.entries.length < pathCacheGenHardCap := by omega
    have hlength := length_bumpPathCacheGen (hfresh k List.mem_cons_self) hbelow
    obtain ⟨mem, hblocks⟩ := invalidateBlocks_of_index_empty hindex cfg k ino
    have hflags : s.jobs.map (fun j ↦ (j.1, j.2 || decide (j.1.remotePath = k))) = s.jobs :=
      map_flag_of_ne (fun j hj heq ↦ hjobs j hj (heq ▸ List.mem_cons_self))
    have hstep : genStep cfg (.invalidate k ino) s =
        some ⟨{ s.fs with
          memCache := mem, pathCacheGen := (bumpPathCacheGen s.fs k).pathCacheGen }, s.jobs⟩ := by
      rw [genStep, hblocks, hflags]
    obtain ⟨mem', gens, hexec, hgens⟩ := ih (s := ⟨{ s.fs with
        memCache := mem, pathCacheGen := (bumpPathCacheGen s.fs k).pathCacheGen }, s.jobs⟩) hindex
      hnodup
      (fun q hq ↦ notMem_bumpPathCacheGen (fun h ↦ hk (h ▸ hq))
        (hfresh q (List.mem_cons_of_mem k hq)) hbelow)
      (fun j hj hmem ↦ hjobs j hj (List.mem_cons_of_mem k hmem)) (by simp only; omega)
    refine ⟨mem', gens, ?_, ?_⟩
    · rw [List.map_cons, exec, hstep, Option.bind_some, hexec]
    · rw [hgens, hlength, List.length_cons]
      omega

/-- One character, repeated one to `n` times. -/
def rowOfPaths (n : Nat) : List Path := (List.range n).map (fun i ↦ List.replicate (i + 1) 'q')

theorem nodup_rowOfPaths (n : Nat) : (rowOfPaths n).Nodup := by
  apply List.Nodup.map _ List.nodup_range
  intro i j h
  have hlength := congrArg List.length h
  simpa using hlength

theorem head?_of_mem_rowOfPaths {n : Nat} {k : Path} (hk : k ∈ rowOfPaths n) :
    k.head? = some 'q' := by
  obtain ⟨i, -, rfl⟩ := List.mem_map.mp hk
  rfl

theorem exists_exec_cleared (cfg : Config) {s : GenSys} (hindex : s.fs.diskCacheIndex = ∅)
    (hfresh : ∀ k ∈ s.fs.pathCacheGen, k.head? ≠ some 'q')
    (hjobs : ∀ j ∈ s.jobs, j.1.remotePath.head? ≠ some 'q')
    (hcap : s.fs.pathCacheGen.entries.length ≤ pathCacheGenHardCap) :
    ∃ labels mem gens, exec (genStep cfg) labels s =
        some ⟨{ s.fs with memCache := mem, pathCacheGen := gens }, s.jobs⟩ ∧
      ∀ path, path.head? ≠ some 'q' → gens.lookup path = none := by
  let row := rowOfPaths (pathCacheGenHardCap - s.fs.pathCacheGen.entries.length)
  have hrow : row.length = pathCacheGenHardCap - s.fs.pathCacheGen.entries.length := by
    simp [row, rowOfPaths]
  obtain ⟨mem, gens, hexec, hfull⟩ := exec_invalidations cfg 2 row hindex (nodup_rowOfPaths _)
    (fun k hk hmem ↦ hfresh k hmem (head?_of_mem_rowOfPaths hk))
    (fun j hj hmem ↦ hjobs j hj (head?_of_mem_rowOfPaths hmem)) (by omega)
  -- the table is full now, and one more invalidation clears it
  let full : MntrsFs := { s.fs with memCache := mem, pathCacheGen := gens }
  have hnot : ¬ full.pathCacheGen.entries.length < pathCacheGenHardCap := by
    simp only [full]
    omega
  obtain ⟨mem', hblocks⟩ := @invalidateBlocks_of_index_empty full hindex cfg ['q'] 2
  have hflags : s.jobs.map (fun j ↦ (j.1, j.2 || decide (j.1.remotePath = ['q']))) = s.jobs :=
    map_flag_of_ne (fun j hj heq ↦ hjobs j hj (by rw [heq]; rfl))
  refine ⟨row.map (fun k ↦ GenLabel.invalidate k 2) ++ [GenLabel.invalidate ['q'] 2], mem',
    AList.insert ['q'] 1 ∅, ?_, ?_⟩
  · rw [exec_append, hexec, Option.bind_some, exec, genStep, Option.bind_some, exec]
    rw [hblocks, hflags, bumpPathCacheGen, if_neg hnot]
  · intro path hpath
    have hne : path ≠ ['q'] := fun heq ↦ hpath (by rw [heq]; rfl)
    rw [AList.lookup_insert_ne hne]
    rfl

/-- A block of `p` is submitted and `p` is invalidated. Then other paths are invalidated until
the table is full, one more invalidation clears it, and `p` has the generation of the job
again: the old block is written. -/
theorem outdated_job_writes :
    ∃ labels s t,
      exec (genStep (.plain .full)) labels ⟨MntrsFs.mounted (fun _ ↦ none) Disk.empty, []⟩ =
        some s ∧
      s.jobs[0]? = some (⟨['p'], 0, [7], 0⟩, true) ∧
      poolExecuteBlock (.plain .full) s.fs 0 0 = some t ∧
      s.fs.disk.block ((Config.plain .full).writeBufferPath ['p']) 0 = none ∧
      t.disk.block ((Config.plain .full).writeBufferPath ['p']) 0 = some ⟨['p'], [7], 0⟩ := by
  let job : BlockCacheJob := ⟨['p'], 0, [7], 0⟩
  let first : MntrsFs := { MntrsFs.mounted (fun _ ↦ none) Disk.empty with blockCachePool := [job] }
  obtain ⟨mem, hfirst⟩ := @invalidateBlocks_of_index_empty first rfl (.plain .full) ['p'] 2
  have hbump : (bumpPathCacheGen first ['p']).pathCacheGen = AList.insert ['p'] 1 ∅ := by
    rfl
  let s : GenSys := ⟨{ first with
    memCache := mem, pathCacheGen := AList.insert ['p'] 1 ∅ }, [(job, true)]⟩
  have hstart : exec (genStep (.plain .full)) [.submit ['p'] 0 [7], .invalidate ['p'] 2]
      ⟨MntrsFs.mounted (fun _ ↦ none) Disk.empty, []⟩ = some s :=
    congrArg (fun fs ↦ some (GenSys.mk fs [(job, true)])) hfirst
  have honly : ∀ k ∈ s.fs.pathCacheGen, k.head? ≠ some 'q' := by
    intro k hk
    rcases (AList.mem_insert _).mp hk with rfl | hk
    · decide
    · cases hk
  have hone : s.fs.pathCacheGen.entries.length ≤ pathCacheGenHardCap := by
    have hle : 1 ≤ pathCacheGenHardCap := by decide
    exact hle
  obtain ⟨labels, mem', gens, hexec, hclear⟩ := exists_exec_cleared (.plain .full) (s := s) rfl
    honly (by simp [s, job]) hone
  let last : MntrsFs := { s.fs with memCache := mem', pathCacheGen := gens }
  have hzero : pathCacheGen last ['p'] = 0 := by
    rw [pathCacheGen, hclear ['p'] (by decide)]
    rfl
  have hwrite : poolExecuteBlock (.plain .full) last 0 0 = some { last with
      blockCachePool := []
      disk := last.disk.writeBlock ((Config.plain .full).writeBufferPath ['p']) 0
        ⟨['p'], [7], 0⟩ } := by
    have hcurrent : ¬ (pathCacheGen last job.remotePath ≠ job.cacheGen ∨
        maxPathLen < (utf8 job.remotePath).length) := by
      rw [not_or, not_not]
      exact ⟨hzero, by decide⟩
    exact if_neg hcurrent
  refine ⟨[.submit ['p'] 0 [7], .invalidate ['p'] 2] ++ labels, ⟨last, [(job, true)]⟩, _, ?_, rfl,
    hwrite, rfl, ?_⟩
  · rw [exec_append, hstart]
    exact hexec
  · simp [Disk.writeBlock]

end Mntrs
