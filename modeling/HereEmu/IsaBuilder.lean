import HereEmu.Basic
import Mathlib.Algebra.GroupWithZero.Nat
import Mathlib.Data.List.Nodup
import Mathlib.Logic.Relation

/-!
# ISA strings

`ISABuilder` collects the extensions an ISA string names and, before each of them,
those it depends on. What comes out has every extension once, and is the closure of
what is named: the order in the string does not show in the set, and neither does
it in what is made of the set.
-/

namespace HereEmu

open List

def XLEN : Nat := 64

inductive Extension where
  | I | M | A | F | D | C | V | Zicsr | Zifencei
  deriving DecidableEq, Repr

/-- The instruction tables. -/
structure InstrTables (δ : Type) where
  (RV32I RV64I RV32M RV64M RV32A RV64A RV32F RV64F RV32D RV64D RVV RVC RV32C RV64C RVZICSR
    RVZIFENCEI RVC_D RV32C_F RVSYSTEM RVS RVILLEGAL : List δ)

namespace Extension

variable {δ : Type}

def dependencies : Extension → List Extension
  | D => [F]
  | F => [Zicsr]
  | _ => []

def xlenTables (rv32 rv64 : List δ) : List (List δ) := if XLEN = 64 then [rv32, rv64] else [rv32]

def tables (t : InstrTables δ) : Extension → List (List δ)
  | I => xlenTables t.RV32I t.RV64I
  | M => xlenTables t.RV32M t.RV64M
  | A => xlenTables t.RV32A t.RV64A
  | F => xlenTables t.RV32F t.RV64F
  | D => xlenTables t.RV32D t.RV64D
  | V => [t.RVV]
  | C => [t.RVC, if XLEN = 64 then t.RV64C else t.RV32C]
  | Zicsr => [t.RVZICSR]
  | Zifencei => [t.RVZIFENCEI]

def misaLetter : Extension → Option Char
  | I => some 'I'
  | M => some 'M'
  | A => some 'A'
  | F => some 'F'
  | D => some 'D'
  | C => some 'C'
  | V => some 'V'
  | Zicsr | Zifencei => none

end Extension

def misaBit (letter : Char) : WordType := 1 <<< (letter.toNat - 'A'.toNat)

inductive IsaParseError where
  | missingRvPrefix
  | missingXlen
  | xlenMismatch (requested actual : Nat)
  | unknownBaseExtension (letter : Char)
  | unknownExtension (token : List Char)
  deriving DecidableEq, Repr

/-- The builder by its extensions. -/
abbrev ISABuilder := List Extension

namespace ISABuilder

open Extension

/-- `insert` calls itself for the dependencies, of which no chain has more than
three. -/
def insertWithin : Nat → ISABuilder → Extension → ISABuilder
  | 0, b, _ => b
  | n + 1, b, ext => if ext ∈ b then b else ext.dependencies.foldl (insertWithin n) b ++ [ext]

def insert : ISABuilder → Extension → ISABuilder := insertWithin 3

def new : ISABuilder := insert [] .I

def build {δ : Type} (t : InstrTables δ) (b : ISABuilder) : List δ :=
  b.flatMap (fun ext => (ext.tables t).flatten) ++ (if C ∈ b ∧ D ∈ b then t.RVC_D else []) ++
    (if XLEN = 32 ∧ C ∈ b ∧ F ∈ b then t.RV32C_F else []) ++ t.RVSYSTEM ++ t.RVS ++ t.RVILLEGAL

def extensionBits (b : ISABuilder) : WordType :=
  b.foldl (fun bits ext => match ext.misaLetter with
    | some letter => bits ||| misaBit letter
    | none => bits) (misaBit 'S' ||| misaBit 'U')

/-! ## Parsing -/

/-- One extension needs another. -/
def Needs : Extension → Extension → Prop :=
  Relation.ReflTransGen fun ext dep => dep ∈ ext.dependencies

/-- No extension twice, and none without its dependencies. -/
structure Closed (b : ISABuilder) : Prop where
  nodup : b.Nodup
  dependencies : ∀ ext ∈ b, ∀ dep ∈ ext.dependencies, dep ∈ b

/-- Going on from any builder adds what is needed for the extensions in `exts`. -/
def Adds (b b' : ISABuilder) (exts : Extension → Prop) : Prop :=
  Closed b → Closed b' ∧ ∀ e, e ∈ b' ↔ e ∈ b ∨ ∃ x, exts x ∧ Needs x e

variable {b b' b'' : ISABuilder} {exts exts' : Extension → Prop} {ext : Extension}

theorem Adds.trans (h : Adds b b' exts) (h' : Adds b' b'' exts') :
    Adds b b'' fun x => exts x ∨ exts' x := by
  intro hb
  obtain ⟨hb', hmem⟩ := h hb
  obtain ⟨hb'', hmem'⟩ := h' hb'
  refine ⟨hb'', fun _ => ?_⟩
  simp only [hmem', hmem, or_and_right, exists_or, or_assoc]

/-- One of the items stands for the extension. -/
def NamedBy {α : Type} (named : α → Except IsaParseError (List Extension)) (items : List α)
    (x : Extension) : Prop :=
  ∃ a ∈ items, ∃ exts, named a = .ok exts ∧ x ∈ exts

/-- The parts between underscores, after the width. -/
def segments (s : List Char) : List (List Char) :=
  (((s.map Char.toLower).drop 2).dropWhile Char.isDigit).splitOn '_'

theorem NamedBy.mono {α : Type} {named : α → Except IsaParseError (List Extension)}
    {items items' : List α} (h : items ⊆ items') : NamedBy named items ext → NamedBy named items' ext :=
  fun ⟨a, ha, hext⟩ => ⟨a, h ha, hext⟩

end ISABuilder

end HereEmu
