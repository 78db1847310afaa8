/-
  FsBridge.Lib.Fs

  A file system with the operations of Go's os package that a program on plain
  files uses: every path is a cell (`FsBridge.Lib.Cells`).

  A cell holds what is under the path now and the contents of every file that
  has been there: an open file stays what it is when its path is removed or
  created anew.  Creating what exists truncates it.  There are no links and no
  renames, the parent of a path is taken to be there, and no operation fails for
  lack of space or permission.
-/

import FsBridge.Lib.Cells
import FsBridge.Lib.Path

namespace FsBridge.Lib

/-- What stands for a byte in a file.  Programs that only move bytes can be read
    with bytes that carry more than their value. -/
class Octet (B : Type) where
  ofByte : UInt8 → B
  toByte : B → UInt8
  toByte_ofByte : ∀ b, toByte (ofByte b) = b

instance : Octet UInt8 := ⟨id, id, fun _ => rfl⟩

namespace Fs

inductive Node where
  | dir
  | file (gen : Nat)
deriving DecidableEq, Repr

instance (node : Option Node) : Decidable (∀ gen, node ≠ some (.file gen)) :=
  match node with
  | some (.file gen) => .isFalse fun h => h gen rfl
  | some .dir | none => .isTrue fun _ h => nomatch h

/-- What is under a path, and the contents of the files that have been there. -/
structure Slot (B : Type) where
  node : Option Node
  gens : Nat → List B
  fresh : Nat
  fresh_lt : ∀ gen, node = some (.file gen) → gen < fresh

/-- An open file. -/
structure Handle where
  path : Bytes
  gen : Nat
  offset : Nat
deriving DecidableEq, Repr

inductive Op (B : Type) where
  | mkdirAll (path : Bytes)
  | create (path : Bytes)
  | openFile (path : Bytes)
  | read (h : Handle) (n : Nat)
  | write (h : Handle) (bytes : List B)
  | remove (path : Bytes)

inductive Res (B : Type) where
  | failed
  | done
  | opened (h : Handle)
  | data (bytes : List B) (h : Handle)

def Op.path {B : Type} : Op B → Bytes
  | .mkdirAll path | .create path | .openFile path | .remove path => path
  | .read h _ | .write h _ => h.path

-- ============================================================================
-- Cells
-- ============================================================================

variable {B : Type} [Octet B]

namespace Slot

/-- Nothing is there. -/
def empty : Slot B := ⟨none, fun _ => [], 0, by simp⟩

/-- The bytes written at an offset; a gap before it is zero. -/
def writeAt (old : List B) (offset : Nat) (bytes : List B) : List B :=
  if bytes = [] then old
  else
    let base := old ++ List.replicate (offset - old.length) (Octet.ofByte 0)
    base.take offset ++ bytes ++ base.drop (offset + bytes.length)

/-- The content of one file. -/
def setGen (s : Slot B) (gen : Nat) (content : List B) : Slot B :=
  { s with gens := Function.update s.gens gen content }

def mkdir (s : Slot B) : Slot B := ⟨some .dir, s.gens, s.fresh, by simp⟩

def unlink (s : Slot B) : Slot B := ⟨none, s.gens, s.fresh, by simp⟩

/-- A new file. -/
def newFile (s : Slot B) : Slot B where
  node := some (.file s.fresh)
  gens := Function.update s.gens s.fresh []
  fresh := s.fresh + 1
  fresh_lt := by
    intro gen h
    obtain rfl : s.fresh = gen := by simpa using h
    exact Nat.lt_succ_self _

end Slot

def act : Op B → Slot B → Res B × Slot B
  | .mkdirAll _, s =>
      match s.node with
      | some (.file _) => (.failed, s)
      | _ => (.done, s.mkdir)
  | .create path, s =>
      match s.node with
      | some .dir => (.failed, s)
      | some (.file gen) => (.opened ⟨path, gen, 0⟩, s.setGen gen [])
      | none => (.opened ⟨path, s.fresh, 0⟩, s.newFile)
  | .openFile path, s =>
      match s.node with
      | some (.file gen) => (.opened ⟨path, gen, 0⟩, s)
      | _ => (.failed, s)
  | .read h n, s =>
      let bytes := ((s.gens h.gen).drop h.offset).take n
      (.data bytes { h with offset := h.offset + bytes.length }, s)
  | .write h bytes, s =>
      (.opened { h with offset := h.offset + bytes.length },
        s.setGen h.gen (Slot.writeAt (s.gens h.gen) h.offset bytes))
  | .remove _, s =>
      match s.node with
      | some (.file _) => (.done, s.unlink)
      | _ => (.failed, s)

/-- The file system of a process with the working directory `cwd`. -/
def cells (B : Type) [Octet B] (cwd : List Bytes) :
    Cells (List Bytes) (Slot B) (Op B) (Res B) where
  key o := Path.resolve cwd o.path
  act := act

-- ============================================================================
-- Operations in a program
-- ============================================================================

abbrev FsProg (B A : Type) := Prog (Op B) (Res B) A

/-- `os.MkdirAll`, where all but the last directory are there. -/
def mkdirAll (path : Bytes) : FsProg B Bool :=
  .call (.mkdirAll path) fun
    | .done => .ret true
    | _ => .ret false

/-- `os.Create`. -/
def create (path : Bytes) : FsProg B (Option Handle) :=
  .call (.create path) fun
    | .opened h => .ret (some h)
    | _ => .ret none

/-- `os.Open`. -/
def openFile (path : Bytes) : FsProg B (Option Handle) :=
  .call (.openFile path) fun
    | .opened h => .ret (some h)
    | _ => .ret none

/-- `io.ReadFull` of `n` bytes: fewer only at the end of the file. -/
def readFull (h : Handle) (n : Nat) : FsProg B (List B × Handle) :=
  .call (.read h n) fun
    | .data bytes h' => .ret (bytes, h')
    | _ => .ret ([], h)

/-- `File.Write`. -/
def write (h : Handle) (bytes : List B) : FsProg B Handle :=
  .call (.write h bytes) fun
    | .opened h' => .ret h'
    | _ => .ret h

/-- `os.Remove` of a file. -/
def remove (path : Bytes) : FsProg B Unit := .call (.remove path) fun _ => .ret ()

-- ============================================================================
-- What the operations do
-- ============================================================================

/-- The file under the path, and its content. -/
structure Slot.Holds (s : Slot B) (gen : Nat) (content : List B) : Prop where
  node : s.node = some (.file gen)
  gens : s.gens gen = content

omit [Octet B] in
theorem Slot.Holds.setGen {s : Slot B} {gen : Nat} {content : List B} (h : s.Holds gen content)
    (content' : List B) : (s.setGen gen content').Holds gen content' :=
  ⟨h.node, Function.update_self _ _ _⟩

/-- The content of the file under the path. -/
def Slot.content (s : Slot B) : Option (List B) :=
  match s.node with
  | some (.file gen) => some (s.gens gen)
  | _ => none

omit [Octet B] in
theorem Slot.Holds.content {s : Slot B} {gen : Nat} {bytes : List B} (h : s.Holds gen bytes) :
    s.content = some bytes := by
  rw [Slot.content, h.node, ← h.gens]

/-- A write at the end. -/
theorem Slot.writeAt_end (old bytes : List B) : writeAt old old.length bytes = old ++ bytes := by
  rw [writeAt]
  split
  · rename_i hnil
    rw [hnil, List.append_nil]
  · simp

variable {cwd : List Bytes} {fs : List Bytes → Slot B} {path : Bytes}

theorem exec_eq {o : Op B} {res : Res B} {slot : Slot B}
    (h : act o (fs (Path.resolve cwd o.path)) = (res, slot)) :
    (cells B cwd).exec o fs = (res, Function.update fs (Path.resolve cwd o.path) slot) := by
  show ((act o (fs (Path.resolve cwd o.path))).1,
    Function.update fs (Path.resolve cwd o.path) (act o (fs (Path.resolve cwd o.path))).2) = _
  rw [h]

theorem run_mkdirAll (h : ∀ gen, (fs (Path.resolve cwd path)).node ≠ some (.file gen)) :
    (cells B cwd).run (mkdirAll path) fs
      = (true, Function.update fs (Path.resolve cwd path) (fs (Path.resolve cwd path)).mkdir) := by
  have hact : act (.mkdirAll path) (fs (Path.resolve cwd path))
      = (.done, (fs (Path.resolve cwd path)).mkdir) := by
    rw [act]
    split
    · rename_i gen hnode
      exact absurd hnode (h gen)
    · rfl
  rw [mkdirAll, Cells.run_call, exec_eq hact]
  rfl

/-- Creating a file leaves an empty one under its path. -/
theorem run_create (h : (fs (Path.resolve cwd path)).node ≠ some .dir) :
    ∃ gen slot, (cells B cwd).run (create path) fs
        = (some ⟨path, gen, 0⟩, Function.update fs (Path.resolve cwd path) slot) ∧
      slot.Holds gen [] := by
  have hact : ∃ gen slot, act (.create path) (fs (Path.resolve cwd path))
      = (.opened ⟨path, gen, 0⟩, slot) ∧ slot.Holds gen [] := by
    rw [act]
    split
    · rename_i hnode
      exact absurd hnode h
    · rename_i gen hnode
      exact ⟨gen, _, rfl, hnode, Function.update_self _ _ _⟩
    · exact ⟨_, _, rfl, rfl, Function.update_self _ _ _⟩
  obtain ⟨gen, slot, hact, hslot⟩ := hact
  refine ⟨gen, slot, ?_, hslot⟩
  rw [create, Cells.run_call, exec_eq hact]
  rfl

theorem run_openFile {gen : Nat} {content : List B}
    (h : (fs (Path.resolve cwd path)).Holds gen content) :
    (cells B cwd).run (openFile path) fs = (some ⟨path, gen, 0⟩, fs) := by
  have hact : act (.openFile path) (fs (Path.resolve cwd path))
      = (.opened ⟨path, gen, 0⟩, fs (Path.resolve cwd path)) := by
    rw [act, h.node]
  rw [openFile, Cells.run_call, exec_eq hact]
  show (some _, Function.update fs (Path.resolve cwd path) _) = _
  rw [Function.update_eq_self]

theorem run_readFull {gen : Nat} {content : List B} (offset n : Nat)
    (h : (fs (Path.resolve cwd path)).Holds gen content) :
    (cells B cwd).run (readFull ⟨path, gen, offset⟩ n) fs
      = (((content.drop offset).take n,
          ⟨path, gen, offset + ((content.drop offset).take n).length⟩), fs) := by
  have hact : act (.read ⟨path, gen, offset⟩ n) (fs (Path.resolve cwd path))
      = (.data ((content.drop offset).take n)
          ⟨path, gen, offset + ((content.drop offset).take n).length⟩,
        fs (Path.resolve cwd path)) := by
    rw [act, h.gens]
  rw [readFull, Cells.run_call, exec_eq hact]
  show (_, Function.update fs (Path.resolve cwd path) _) = _
  rw [Function.update_eq_self]

/-- Writing at the end of a file appends. -/
theorem run_write {gen : Nat} {content : List B} (bytes : List B)
    (h : (fs (Path.resolve cwd path)).Holds gen content) :
    ∃ slot, (cells B cwd).run (write ⟨path, gen, content.length⟩ bytes) fs
        = (⟨path, gen, (content ++ bytes).length⟩,
          Function.update fs (Path.resolve cwd path) slot) ∧
      slot.Holds gen (content ++ bytes) := by
  have hact : act (.write ⟨path, gen, content.length⟩ bytes) (fs (Path.resolve cwd path))
      = (.opened ⟨path, gen, (content ++ bytes).length⟩,
        (fs (Path.resolve cwd path)).setGen gen (content ++ bytes)) := by
    rw [act, h.gens, Slot.writeAt_end, List.length_append]
  refine ⟨_, ?_, h.setGen (content ++ bytes)⟩
  rw [write, Cells.run_call, exec_eq hact]
  rfl

-- ============================================================================
-- The paths of the operations
-- ============================================================================

section Uses

variable {A : Type} {K : List Bytes → Prop}

theorem uses_mkdirAll {f : Bool → FsProg B A} (h : K (Path.resolve cwd path))
    (hf : ∀ made, (cells B cwd).Uses K (f made)) :
    (cells B cwd).Uses K (mkdirAll path >>= f) := by
  refine ⟨h, fun s => ?_⟩
  show (cells B cwd).Uses K ((match (act (.mkdirAll path) s).1 with
    | .done => Prog.ret true
    | _ => Prog.ret false) >>= f)
  split
  · exact hf true
  · exact hf false

theorem uses_create {f : Option Handle → FsProg B A} (h : K (Path.resolve cwd path))
    (hnone : (cells B cwd).Uses K (f none))
    (hsome : ∀ gen, (cells B cwd).Uses K (f (some ⟨path, gen, 0⟩))) :
    (cells B cwd).Uses K (create path >>= f) := by
  refine ⟨h, fun s => ?_⟩
  show (cells B cwd).Uses K ((match (act (.create path) s).1 with
    | .opened h => Prog.ret (some h)
    | _ => Prog.ret none) >>= f)
  have hres : (act (.create path) s).1 = .failed ∨
      ∃ gen, (act (.create path) s).1 = .opened ⟨path, gen, 0⟩ := by
    rw [act]
    split
    · exact .inl rfl
    · exact .inr ⟨_, rfl⟩
    · exact .inr ⟨_, rfl⟩
  rcases hres with hres | ⟨gen, hres⟩
  · rw [hres]
    exact hnone
  · rw [hres]
    exact hsome gen

theorem uses_openFile {f : Option Handle → FsProg B A} (h : K (Path.resolve cwd path))
    (hnone : (cells B cwd).Uses K (f none))
    (hsome : ∀ gen, (cells B cwd).Uses K (f (some ⟨path, gen, 0⟩))) :
    (cells B cwd).Uses K (openFile path >>= f) := by
  refine ⟨h, fun s => ?_⟩
  show (cells B cwd).Uses K ((match (act (.openFile path) s).1 with
    | .opened h => Prog.ret (some h)
    | _ => Prog.ret none) >>= f)
  have hres : (act (.openFile path) s).1 = .failed ∨
      ∃ gen, (act (.openFile path) s).1 = .opened ⟨path, gen, 0⟩ := by
    rw [act]
    split
    · exact .inr ⟨_, rfl⟩
    · exact .inl rfl
  rcases hres with hres | ⟨gen, hres⟩
  · rw [hres]
    exact hnone
  · rw [hres]
    exact hsome gen

theorem uses_readFull {f : List B × Handle → FsProg B A} {hd : Handle}
    (h : K (Path.resolve cwd hd.path)) (n : Nat)
    (hf : ∀ bytes offset, (cells B cwd).Uses K (f (bytes, ⟨hd.path, hd.gen, offset⟩))) :
    (cells B cwd).Uses K (readFull hd n >>= f) :=
  ⟨h, fun _ => hf _ _⟩

theorem uses_write {f : Handle → FsProg B A} {hd : Handle} (h : K (Path.resolve cwd hd.path))
    (bytes : List B) (hf : ∀ offset, (cells B cwd).Uses K (f ⟨hd.path, hd.gen, offset⟩)) :
    (cells B cwd).Uses K (write hd bytes >>= f) :=
  ⟨h, fun _ => hf _⟩

theorem uses_remove {f : Unit → FsProg B A} (h : K (Path.resolve cwd path))
    (hf : (cells B cwd).Uses K (f ())) : (cells B cwd).Uses K (remove path >>= f) :=
  ⟨h, fun _ => hf⟩

end Uses

end Fs

end FsBridge.Lib
