import Mntrs.Names.InodeTable

/-!
# Allotting inode numbers

A call that only finds and allocates inodes loses none of them and takes new numbers from the
counter.
-/

namespace Mntrs

open Base

/-- Every inode keeps its path, and no number below the counter comes to life. -/
structure Allots (fs fs' : MntrsFs) : Prop where
  kept : ∀ {i p}, fs.registry.live i = some p → fs'.registry.live i = some p
  fresh : ∀ {i}, i < fs.nextIno → fs.registry.live i = none → fs'.registry.live i = none
  next : fs.nextIno ≤ fs'.nextIno

namespace Allots

variable {fs fs' fs'' : MntrsFs}

theorem of_eq (hlive : fs'.registry.live = fs.registry.live) (hnext : fs'.nextIno = fs.nextIno) :
    Allots fs fs' where
  kept := fun h ↦ hlive ▸ h
  fresh := fun _ h ↦ hlive ▸ h
  next := hnext.ge

theorem trans (h : Allots fs fs') (h' : Allots fs' fs'') : Allots fs fs'' where
  kept := fun hlive ↦ h'.kept (h.kept hlive)
  fresh := fun hi hnone ↦ h'.fresh (hi.trans_le h.next) (h.fresh hi hnone)
  next := h.next.trans h'.next

end Allots

variable (fs : MntrsFs)

theorem allots_allocInode (path : Path) (kind : FileType) (size : Nat) (mtime : Option Nat) :
    Allots fs (allocInode fs path kind size mtime).2 ∧
      (allocInode fs path kind size mtime).2.registry.live
        (allocInode fs path kind size mtime).1 ≠ none := by
  unfold allocInode
  split
  · next ino heq =>
    obtain ⟨-, hlive⟩ := Option.filter_eq_some_iff.mp heq
    exact ⟨.of_eq rfl rfl, by simpa [MntrsFs.registry, Option.isSome_iff_ne_none] using hlive⟩
  · have hlive : ∀ i, ((if (fs.inodes.lookup fs.nextIno).isSome then
        fs.inodes.modify fs.nextIno (fun e ↦ { e with size := size })
        else fs.inodes.insert fs.nextIno ⟨path, kind, size, mtime⟩).lookup i = none ↔
          i ≠ fs.nextIno ∧ fs.inodes.lookup i = none) := by
      intro i
      by_cases hi : i = fs.nextIno
      · subst hi
        split
        · next hsome =>
          rw [Table.lookup_modify]
          simp [Option.isSome_iff_ne_none.mp hsome]
        · simp
      · split
        · rw [Table.lookup_modify_of_ne _ _ hi]
          simp [hi]
        · simp [hi]
    refine ⟨⟨?_, ?_, Nat.le_succ _⟩, ?_⟩
    · intro i p hp
      by_cases hi : i = fs.nextIno
      · subst hi
        have hsome : (fs.inodes.lookup fs.nextIno).isSome := by
          by_contra hnone
          simp [MntrsFs.registry, Option.not_isSome_iff_eq_none.mp hnone] at hp
        simp only [MntrsFs.registry, hsome, if_true]
        rw [Table.lookup_modify, Option.map_map]
        exact hp
      · simp only [MntrsFs.registry] at hp ⊢
        split
        · rw [Table.lookup_modify_of_ne _ _ hi]
          exact hp
        · rw [AList.lookup_insert_ne hi]
          exact hp
    · intro i hi hnone
      simp only [MntrsFs.registry, Option.map_eq_none_iff] at hnone ⊢
      exact (hlive i).mpr ⟨Nat.ne_of_lt hi, hnone⟩
    · simp only [MntrsFs.registry, ne_eq, Option.map_eq_none_iff]
      intro hnone
      exact ((hlive _).mp hnone).1 rfl

/-- Finding an inode allots nothing. -/
theorem allots_findInoByPath (path : Path) : Allots fs (findInoByPath fs path).2 := by
  rw [findInoByPath_frame]
  exact .of_eq rfl rfl

/-- Every call that takes nothing away allots. -/
theorem Allocates.allots {fs fs' : MntrsFs} (h : Allocates fs fs') : Allots fs fs' := by
  induction h with
  | frame hregistry => exact .of_eq (by rw [hregistry]) (congrArg Registry.next hregistry)
  | find fs path => exact allots_findInoByPath fs path
  | alloc fs path kind size mtime => exact (allots_allocInode fs path kind size mtime).1
  | trans _ _ ih ih' => exact ih.trans ih'

end Mntrs
