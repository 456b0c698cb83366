import DeclAnalysis.NameMap

/-!
# Interned symbols

A symbol stands for a string and is one 32-bit word: four bits choose one of sixteen shards, the
others number the strings of that shard in the order in which they came.

A shard keeps its strings twice, in a vector that the index of a symbol points into and in a map
that finds the index of a string. The two are inverse to each other (`SymbolShard.inverse`). A
string belongs to the shard that its first bytes choose (`SymbolTable.home`).
-/

namespace DeclAnalysis

/-- A compact stand-in for a string. -/
@[ext] structure Symbol where
  /-- The shard in the four high bits and the index in the others. -/
  word : UInt32
deriving DecidableEq

namespace Symbol

/-- The symbol of the empty string. -/
def empty : Symbol := ⟨0⟩

/-- The greatest index a symbol can have. -/
def maxIndex : Nat := 268435455

/-- Packs a shard and an index. -/
def ofParts (shard : Fin 16) (index : Fin 268435456) : Symbol :=
  ⟨UInt32.ofNat shard.val <<< 28 ||| UInt32.ofNat index.val⟩

/-- The shard that holds the string. -/
def shard (s : Symbol) : Fin 16 :=
  ⟨(s.word >>> 28).toNat, by
    have hword := s.word.toNat_lt
    rw [UInt32.toNat_shiftRight, Nat.shiftRight_eq_div_pow]
    exact Nat.div_lt_of_lt_mul hword⟩

/-- The position of the string in its shard. -/
def index (s : Symbol) : Fin 268435456 :=
  ⟨(s.word &&& UInt32.ofNat maxIndex).toNat, by
    rw [UInt32.toNat_and]
    exact Nat.lt_succ_of_le Nat.and_le_right⟩

/-- Symbols are ordered as their words are. -/
def order (s t : Symbol) : Ordering :=
  if s.word.toNat < t.word.toNat then .lt else if s.word = t.word then .eq else .gt

/-- The text that shows both parts of a symbol. -/
def text (s : Symbol) : String :=
  "Name(shard=" ++ toString s.shard.val ++ ", local=" ++ toString s.index.val ++ ")"

end Symbol

/-! ## Shards -/

/-- The strings of one shard. -/
structure SymbolShard where
  /-- The index of each string. -/
  places : NameMap (Fin 268435456)
  /-- The strings by index. -/
  strings : List String
  /-- The map leads from a string to its index, and the vector back. -/
  inverse : ∀ s index, places.get? s = some index ↔ strings[index.val]? = some s
  /-- Every string has an index. -/
  fits : strings.length ≤ 268435456
deriving DecidableEq

namespace SymbolShard

/-- A shard without strings. -/
def empty : SymbolShard where
  places := .empty
  strings := []
  inverse _ _ := by simp
  fits := Nat.zero_le _

theorem index_lt (shard : SymbolShard) {s : String} {index : Fin 268435456}
    (h : shard.places.get? s = some index) : index.val < shard.strings.length :=
  (List.getElem?_eq_some_iff.mp ((shard.inverse s index).mp h)).1

/-- Gives the next index to a string that the shard does not have. -/
def push (shard : SymbolShard) (s : String) (hnew : shard.places.get? s = none)
    (hroom : shard.strings.length < 268435456) : SymbolShard where
  places := shard.places.insert s ⟨shard.strings.length, hroom⟩
  strings := shard.strings ++ [s]
  inverse r index := by
    rw [NameMap.get?_insert]
    by_cases hlt : index.val < shard.strings.length
    · rw [List.getElem?_append_left hlt, ← shard.inverse]
      split
      · next hsame => simp [hsame, hnew, Fin.ext_iff, Nat.ne_of_gt hlt]
      · rfl
    · -- past the old strings there is the new one only, and no old string leads there
      have hnone : shard.places.get? r ≠ some index := fun h ↦ hlt (shard.index_lt h)
      rw [List.getElem?_append_right (Nat.not_lt.mp hlt), List.getElem?_singleton]
      by_cases hsame : r = s
      · simp only [hsame, if_true, Option.some.injEq, Fin.ext_iff, ite_eq_left_iff]
        simp only [reduceCtorEq, imp_false, Decidable.not_not]
        omega
      · simp [hsame, Ne.symm hsame, hnone]
  fits := by
    rw [List.length_append]
    exact hroom

end SymbolShard

/-! ## Tables -/

namespace SymbolTable

/-- The number of bytes of a string that choose its shard. -/
def hashedBytes : Nat := 8

/-- The shard of a string: a polynomial hash in 32-bit words of its first bytes. -/
def shardOf (s : String) : Fin 16 :=
  let bytes := (s.toList.flatMap String.utf8EncodeChar).take hashedBytes
  let hash := bytes.foldl (fun (h : UInt32) b ↦ h * 31 + b.toUInt32) 0
  Fin.ofNat 16 hash.toNat

end SymbolTable

/-- The strings that have been given symbols. -/
structure SymbolTable where
  /-- The shards by number. -/
  shards : Vector SymbolShard 16
  /-- The number of strings. -/
  total : Nat
  /-- A string is kept in its own shard. -/
  home : ∀ k, ∀ s ∈ (shards.get k).strings, SymbolTable.shardOf s = k
deriving DecidableEq

namespace SymbolTable

/-- A shard that has no index left for one more string. -/
structure Overflow where
  /-- The full shard. -/
  shard : Nat
  /-- The number of strings it holds. -/
  count : Nat
deriving DecidableEq

/-- The text of an overflow. -/
def Overflow.message (e : Overflow) : String :=
  "interner shard " ++ toString e.shard ++ " exceeded capacity: " ++ toString e.count ++
    " strings, max is " ++ toString Symbol.maxIndex

/-- The shard in which a string is looked for. -/
def shard (t : SymbolTable) (s : String) : SymbolShard := t.shards.get (shardOf s)

/-- Adds a string that the table does not have to its shard. -/
def push (t : SymbolTable) (s : String) (hnew : (t.shard s).places.get? s = none)
    (hroom : (t.shard s).strings.length < 268435456) : SymbolTable where
  shards := t.shards.set (shardOf s).val ((t.shard s).push s hnew hroom) (shardOf s).isLt
  total := t.total + 1
  home k r hr := by
    change r ∈ (t.shards.set _ _ (shardOf s).isLt)[k.val].strings at hr
    rw [Vector.getElem_set] at hr
    split at hr
    · next hsame =>
      rcases List.mem_append.mp hr with hold | hlast
      · exact (t.home (shardOf s) r hold).trans (Fin.ext hsame)
      · rw [List.mem_singleton.mp hlast]
        exact Fin.ext hsame
    · exact t.home k r hr

/-- A table without strings. -/
def blank : SymbolTable where
  shards := Vector.replicate 16 .empty
  total := 0
  home k s hs := by
    change s ∈ (Vector.replicate 16 SymbolShard.empty)[k.val].strings at hs
    rw [Vector.getElem_replicate] at hs
    cases hs

/-- A new table holds the empty string only. -/
def new : SymbolTable := blank.push "" (by decide) (by decide)

/-- The symbol of a string, which is added to the table if it is new there. -/
def intern (t : SymbolTable) (s : String) : Except Overflow (Symbol × SymbolTable) :=
  match hfound : (t.shard s).places.get? s with
  | some index => .ok (.ofParts (shardOf s) index, t)
  | none =>
    if hroom : (t.shard s).strings.length < 268435456 then
      .ok (.ofParts (shardOf s) ⟨(t.shard s).strings.length, hroom⟩, t.push s hfound hroom)
    else .error ⟨(shardOf s).val, (t.shard s).strings.length⟩

/-- The string of a symbol, if the table holds one. -/
def lookup? (t : SymbolTable) (x : Symbol) : Option String :=
  (t.shards.get x.shard).strings[x.index.val]?

/-- The number of strings in the table, the empty one included. -/
def size (t : SymbolTable) : Nat := t.total

/-- A table counts as empty while it holds the empty string only. -/
def isEmpty (t : SymbolTable) : Bool := decide (t.size ≤ 1)

end SymbolTable

end DeclAnalysis
