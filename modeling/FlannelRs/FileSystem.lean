import FlannelRs.InteractionPrograms
import Mathlib.Data.List.AList

/-!
# Directories of files with advisory locks

A directory maps file names to contents. `Fs.Answers` says how each operation is answered
when it does not fail for a reason outside of the file system's state, such as a full disk.
-/

namespace FlannelRs.FileSystem
open InteractionPrograms

/-- What a read of the whole file as text gives: its text, or an error. -/
inductive FileContent where
  | text (s : String)
  | unreadable
  deriving DecidableEq

abbrev Dir := AList fun _ : String => FileContent

structure IoError where
  text : String

/-- Operations of `std::fs` on the file `name` of the directory `dir`, and `fs2`'s lock. -/
inductive FsOp where
  | createDirAll (dir : String)
  | createFile (dir name : String)
  | lockExclusive (dir name : String)
  | unlock (dir name : String)
  | readDir (dir : String)
  | readToString (dir name : String)
  | write (dir name text : String)
  | removeFile (dir name : String)

@[reducible] def FsRes : FsOp → Type
  | .readDir _ => Except IoError (List String)
  | .readToString _ _ => Except IoError String
  | _ => Except IoError Unit

/-- Only the operations on locks change who holds them. -/
def FsOp.KeepsLocks : FsOp → Prop
  | .lockExclusive _ _ => False
  | .unlock _ _ => False
  | _ => True

abbrev FsProgram := Program FsOp FsRes

/-- `io::Result` around file operations. -/
abbrev IoProgram := ExceptT IoError FsProgram

def createDirAll (dir : String) : IoProgram Unit :=
  ExceptT.mk (Program.send (FsOp.createDirAll dir))

def createFile (dir name : String) : IoProgram Unit :=
  ExceptT.mk (Program.send (FsOp.createFile dir name))

def lockExclusive (dir name : String) : IoProgram Unit :=
  ExceptT.mk (Program.send (FsOp.lockExclusive dir name))

def unlock (dir name : String) : IoProgram Unit :=
  ExceptT.mk (Program.send (FsOp.unlock dir name))

def readDir (dir : String) : IoProgram (List String) :=
  ExceptT.mk (Program.send (FsOp.readDir dir))

def readToString (dir name : String) : IoProgram String :=
  ExceptT.mk (Program.send (FsOp.readToString dir name))

def write (dir name text : String) : IoProgram Unit :=
  ExceptT.mk (Program.send (FsOp.write dir name text))

def removeFile (dir name : String) : IoProgram Unit :=
  ExceptT.mk (Program.send (FsOp.removeFile dir name))

/-- The directories by path, and who holds the lock on a file. -/
structure Fs where
  dirs : String → Option Dir
  locks : String × String → Option ℕ

namespace Fs

def lookup (s : Fs) (dir name : String) : Option FileContent :=
  (s.dirs dir).bind (AList.lookup name)

def setDir (s : Fs) (dir : String) (d : Dir) : Fs :=
  { s with dirs := Function.update s.dirs dir (some d) }

def setLock (s : Fs) (dir name : String) (holder : Option ℕ) : Fs :=
  { s with locks := Function.update s.locks (dir, name) holder }

/-- The answer to an operation of process `p`. A lock that another process holds is not
answered at all. The order in which a directory is listed is not specified. -/
def Answers (p : ℕ) (s : Fs) : (o : FsOp) → FsRes o → Fs → Prop
  | .createDirAll dir, r, s' => r = .ok () ∧ s' = s.setDir dir ((s.dirs dir).getD ∅)
  | .createFile dir name, r, s' =>
    ∃ d, s.dirs dir = some d ∧ r = .ok () ∧ s' = s.setDir dir (d.insert name (.text ""))
  | .lockExclusive dir name, r, s' =>
    s.locks (dir, name) = none ∧ r = .ok () ∧ s' = s.setLock dir name (some p)
  | .unlock dir name, r, s' => r = .ok () ∧ s' = s.setLock dir name none
  | .readDir dir, r, s' =>
    ∃ d names, s.dirs dir = some d ∧ names.Perm d.keys ∧ r = .ok names ∧ s' = s
  | .readToString dir name, r, s' =>
    s' = s ∧ match s.lookup dir name with
      | some (.text t) => r = .ok t
      | _ => ∃ e, r = .error e
  | .write dir name text, r, s' =>
    ∃ d, s.dirs dir = some d ∧ r = .ok () ∧ s' = s.setDir dir (d.insert name (.text text))
  | .removeFile dir name, r, s' =>
    ∃ d, s.dirs dir = some d ∧ name ∈ d ∧ r = .ok () ∧ s' = s.setDir dir (d.erase name)

/-- An error for a reason outside of the state. A write that fails may have changed the
file. Reads only fail because of the file. -/
def Fails (s : Fs) : (o : FsOp) → FsRes o → Fs → Prop
  | .write dir name _, r, s' =>
    (∃ e, r = .error e) ∧
      (s' = s ∨ ∃ d content, s.dirs dir = some d ∧ s' = s.setDir dir (d.insert name content))
  | .readToString _ _, _, _ => False
  | .unlock _ _, _, _ => False
  | .readDir _, r, s' => (∃ e, r = .error e) ∧ s' = s
  | .createDirAll _, r, s' => (∃ e, r = .error e) ∧ s' = s
  | .createFile _ _, r, s' => (∃ e, r = .error e) ∧ s' = s
  | .lockExclusive _ _, r, s' => (∃ e, r = .error e) ∧ s' = s
  | .removeFile _ _, r, s' => (∃ e, r = .error e) ∧ s' = s

/-- An answer of a file system whose operations may fail. -/
def MayFail (p : ℕ) (s : Fs) (o : FsOp) (r : FsRes o) (s' : Fs) : Prop :=
  s.Answers p o r s' ∨ s.Fails o r s'

/-- As `MayFail`, but the reads of the `lost` files fail too, and no other read does. -/
def Losing (lost : String × String → Prop) (p : ℕ) (s : Fs) : (o : FsOp) → FsRes o → Fs → Prop
  | .readToString dir name, r, s' =>
    (lost (dir, name) ∧ (∃ e, r = .error e) ∧ s' = s) ∨
      (¬ lost (dir, name) ∧ s.Answers p (.readToString dir name) r s')
  | o, r, s' => s.MayFail p o r s'

/-- An answer to an operation, with directories listed in the order of their entries. -/
def perform (p : ℕ) : (o : FsOp) → Fs → Option (FsRes o × Fs)
  | .createDirAll dir, s => some (.ok (), s.setDir dir ((s.dirs dir).getD ∅))
  | .createFile dir name, s =>
    (s.dirs dir).map fun d => (.ok (), s.setDir dir (d.insert name (.text "")))
  | .lockExclusive dir name, s =>
    if s.locks (dir, name) = none then some (.ok (), s.setLock dir name (some p)) else none
  | .unlock dir name, s => some (.ok (), s.setLock dir name none)
  | .readDir dir, s => (s.dirs dir).map fun d => (.ok d.keys, s)
  | .readToString dir name, s =>
    match s.lookup dir name with
    | some (.text t) => some (.ok t, s)
    | _ => some (.error ⟨"cannot read"⟩, s)
  | .write dir name text, s =>
    (s.dirs dir).map fun d => (.ok (), s.setDir dir (d.insert name (.text text)))
  | .removeFile dir name, s =>
    (s.dirs dir).bind fun d =>
      if name ∈ d then some (.ok (), s.setDir dir (d.erase name)) else none

theorem perform_answers {p : ℕ} {o : FsOp} {s s' : Fs} {r : FsRes o}
    (h : perform p o s = some (r, s')) : s.Answers p o r s' := by
  cases o with
  | createDirAll dir =>
    obtain ⟨rfl, rfl⟩ := Prod.mk.inj (Option.some.inj h)
    exact ⟨rfl, rfl⟩
  | createFile dir name =>
    obtain ⟨d, hd, he⟩ := Option.map_eq_some_iff.mp h
    obtain ⟨rfl, rfl⟩ := Prod.mk.inj he
    exact ⟨d, hd, rfl, rfl⟩
  | lockExclusive dir name =>
    obtain ⟨hfree, he⟩ := Option.ite_none_right_eq_some.mp h
    obtain ⟨rfl, rfl⟩ := Prod.mk.inj (Option.some.inj he)
    exact ⟨hfree, rfl, rfl⟩
  | unlock dir name =>
    obtain ⟨rfl, rfl⟩ := Prod.mk.inj (Option.some.inj h)
    exact ⟨rfl, rfl⟩
  | readDir dir =>
    obtain ⟨d, hd, he⟩ := Option.map_eq_some_iff.mp h
    obtain ⟨rfl, rfl⟩ := Prod.mk.inj he
    exact ⟨d, d.keys, hd, .refl _, rfl, rfl⟩
  | readToString dir name =>
    simp only [perform] at h
    split at h
    · rename_i t hl
      obtain ⟨rfl, rfl⟩ := Prod.mk.inj (Option.some.inj h)
      exact ⟨rfl, by rw [hl]⟩
    · rename_i hl
      obtain ⟨rfl, rfl⟩ := Prod.mk.inj (Option.some.inj h)
      refine ⟨rfl, ?_⟩
      split
      · rename_i t ht
        exact absurd ht (hl t)
      · exact ⟨_, rfl⟩
  | write dir name text =>
    obtain ⟨d, hd, he⟩ := Option.map_eq_some_iff.mp h
    obtain ⟨rfl, rfl⟩ := Prod.mk.inj he
    exact ⟨d, hd, rfl, rfl⟩
  | removeFile dir name =>
    obtain ⟨d, hd, he⟩ := Option.bind_eq_some_iff.mp h
    obtain ⟨hname, he⟩ := Option.ite_none_right_eq_some.mp he
    obtain ⟨rfl, rfl⟩ := Prod.mk.inj (Option.some.inj he)
    exact ⟨d, hd, hname, rfl, rfl⟩

theorem losing_of_mayFail {p : ℕ} {s s' : Fs} {o : FsOp} {r : FsRes o}
    (h : s.MayFail p o r s') : s.Losing (fun _ => False) p o r s' := by
  cases o with
  | readToString dir name =>
    rcases h with h | h
    · exact .inr ⟨id, h⟩
    · exact h.elim
  | _ => exact h

@[simp] theorem setDir_locks (s : Fs) (dir : String) (d : Dir) :
    (s.setDir dir d).locks = s.locks := rfl

@[simp] theorem setDir_dirs_self (s : Fs) (dir : String) (d : Dir) :
    (s.setDir dir d).dirs dir = some d := Function.update_self ..

theorem setDir_dirs_ne {dir dir' : String} (h : dir' ≠ dir) (s : Fs) (d : Dir) :
    (s.setDir dir d).dirs dir' = s.dirs dir' := Function.update_of_ne h ..

@[simp] theorem setLock_dirs (s : Fs) (dir name : String) (holder : Option ℕ) :
    (s.setLock dir name holder).dirs = s.dirs := rfl

@[simp] theorem setLock_lookup (s : Fs) (dir name : String) (holder : Option ℕ)
    (dir' name' : String) :
    (s.setLock dir name holder).lookup dir' name' = s.lookup dir' name' := rfl

@[simp] theorem setLock_locks_self (s : Fs) (dir name : String) (holder : Option ℕ) :
    (s.setLock dir name holder).locks (dir, name) = holder := Function.update_self ..

@[simp] theorem setDir_lookup_self (s : Fs) (dir name : String) (d : Dir) :
    (s.setDir dir d).lookup dir name = d.lookup name := by
  simp [lookup]

theorem locks_of_answers {p : ℕ} {s s' : Fs} {o : FsOp} {r : FsRes o} (ho : o.KeepsLocks)
    (h : s.Answers p o r s') : s'.locks = s.locks := by
  cases o with
  | lockExclusive dir name => exact ho.elim
  | unlock dir name => exact ho.elim
  | createDirAll dir => rw [h.2, setDir_locks]
  | createFile dir name =>
    obtain ⟨-, -, -, rfl⟩ := h
    rfl
  | readDir dir =>
    obtain ⟨-, -, -, -, -, rfl⟩ := h
    rfl
  | readToString dir name => rw [h.1]
  | write dir name text =>
    obtain ⟨-, -, -, rfl⟩ := h
    rfl
  | removeFile dir name =>
    obtain ⟨-, -, -, -, rfl⟩ := h
    rfl

theorem lookup_of_dirs {s : Fs} {dir : String} {d : Dir} (h : s.dirs dir = some d)
    (name : String) : s.lookup dir name = d.lookup name := by
  simp [lookup, h]

end Fs

end FlannelRs.FileSystem
