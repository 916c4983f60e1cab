import CodeForge.Lib.Json
import CodeForge.Lib.PurePath

/-!
# The digest of a skill bundle

`_bundle_digest` hashes a stream: of each file its path, a zero byte, its
content and a zero byte, in the order of the paths.  A `Bundle` is a directory as
the digest sees it, the paths of its files with their contents.

A content may have zero bytes in it, and then the stream does not tell where it
ends.  A directory has its stream for itself only if it has no more than one
file, and no piece of its content can be taken for the path of another
(`Bundle.alone_iff`).
-/

namespace CodeForge.Skills

open Lib

/-! ## Bundles -/

/-- A name of a file or directory. -/
def IsName (n : String) : Prop := IsComponent n ∧ n ≠ ".." ∧ Char.ofNat 0 ∉ n.toList

instance (n : String) : Decidable (IsName n) := inferInstanceAs (Decidable (_ ∧ _ ∧ _))

/-- The path of a file in a skill directory. -/
structure FilePath where
  names : List String
  nonempty : names ≠ []
  valid : ∀ n ∈ names, IsName n
deriving DecidableEq

/-- `as_posix()` -/
def FilePath.text (p : FilePath) : String :=
  (PurePath.mk false p.names fun n hn => (p.valid n hn).1).render

/-- Neither path is above the other. -/
def FilePath.Apart (p q : FilePath) : Prop := ¬p.names <+: q.names ∧ ¬q.names <+: p.names

instance (p q : FilePath) : Decidable (p.Apart q) := inferInstanceAs (Decidable (_ ∧ _))

/-- The files of a directory, in the order of `sorted`. -/
structure Bundle where
  files : List (FilePath × List UInt8)
  sorted : files.Pairwise fun f g => f.1.names < g.1.names
  apart : files.Pairwise fun f g => f.1.Apart g.1
deriving DecidableEq

/-- What `_bundle_digest` hashes. -/
def stream : List (FilePath × List UInt8) → List UInt8
  | [] => []
  | (p, content) :: files => utf8 p.text ++ 0 :: (content ++ 0 :: stream files)

/-- `_bundle_digest` -/
def bundleDigest (sha256 : List UInt8 → String) (m : Bundle) : String := sha256 (stream m.files)

/-! ## Paths in the stream -/

theorem FilePath.ext {p q : FilePath} (h : p.names = q.names) : p = q := by
  obtain ⟨names, _, _⟩ := p
  cases h
  rfl

theorem FilePath.text_injective {p q : FilePath} (h : p.text = q.text) : p = q := by
  have same := PurePath.render_injective h
  injection same with _ names
  exact FilePath.ext names

/-- Only the character zero has a zero byte. -/
theorem zero_mem_utf8EncodeChar {c : Char} (h : (0 : UInt8) ∈ String.utf8EncodeChar c) :
    c = Char.ofNat 0 := by
  have byte : ∀ n, (0 : UInt8) = UInt8.ofNat n → n % 256 = 0 := by
    intro n same
    have := congrArg UInt8.toNat same
    simpa using this.symm
  have nat : c.toNat = 0 := by
    have bound : c.val.toNat < 1114112 := by
      rcases c.valid with low | high
      · change c.val.toNat < 0xd800 at low
        omega
      · exact high.2
    change c.val.toNat = 0
    unfold String.utf8EncodeChar at h
    dsimp only at h
    split at h
    · have := byte _ (List.mem_singleton.1 h)
      omega
    split at h
    · simp only [List.mem_cons, List.not_mem_nil, or_false] at h
      rcases h with h | h <;> have := byte _ h <;> omega
    split at h
    · simp only [List.mem_cons, List.not_mem_nil, or_false] at h
      rcases h with h | h | h <;> have := byte _ h <;> omega
    · simp only [List.mem_cons, List.not_mem_nil, or_false] at h
      rcases h with h | h | h | h <;> have := byte _ h <;> omega
  rw [← Char.ofNat_toNat c, nat]

theorem mem_utf8 {s : String} {b : UInt8} (h : b ∈ utf8 s) :
    ∃ c ∈ s.toList, b ∈ String.utf8EncodeChar c := by
  rw [utf8, String.toUTF8_eq_toByteArray, ← String.utf8Encode_toList, List.utf8Encode,
    List.data_toByteArray] at h
  exact List.mem_flatMap.1 (by simpa using h)

theorem mem_intercalate {α : Type} {sep : List α} {ls : List (List α)} {x : α}
    (h : x ∈ sep.intercalate ls) : x ∈ sep ∨ ∃ l ∈ ls, x ∈ l := by
  induction ls with
  | nil => simp [List.intercalate] at h
  | cons l ls ih =>
      cases ls with
      | nil =>
          refine .inr ⟨l, List.mem_cons_self, ?_⟩
          simpa [List.intercalate] using h
      | cons l' ls =>
          rw [List.intercalate_cons_cons] at h
          rcases List.mem_append.1 h with front | rest
          · rcases List.mem_append.1 front with first | sep
            · exact .inr ⟨l, List.mem_cons_self, first⟩
            · exact .inl sep
          · rcases ih rest with sep | ⟨l'', hl, hx⟩
            · exact .inl sep
            · exact .inr ⟨l'', List.mem_cons_of_mem _ hl, hx⟩

theorem FilePath.zero_notMem (p : FilePath) : (0 : UInt8) ∉ utf8 p.text := by
  intro h
  obtain ⟨c, hc, zero⟩ := mem_utf8 h
  rw [zero_mem_utf8EncodeChar zero] at hc
  rw [text, PurePath.render, if_neg Bool.false_ne_true, if_neg p.nonempty, String.toList_ofList]
    at hc
  rcases mem_intercalate hc with slash | ⟨l, hl, there⟩
  · exact absurd (List.mem_singleton.1 slash) (by decide)
  · obtain ⟨n, hn, rfl⟩ := List.mem_map.1 hl
    exact (p.valid n hn).2.2 there

/-- Up to a zero byte, two texts without one are the same. -/
theorem split_at_zero {u v a b : List UInt8} (hu : (0 : UInt8) ∉ u) (hv : (0 : UInt8) ∉ v)
    (h : u ++ 0 :: a = v ++ 0 :: b) : u = v ∧ a = b := by
  induction u generalizing v with
  | nil =>
      cases v with
      | nil => exact ⟨rfl, List.tail_eq_of_cons_eq h⟩
      | cons x v => exact absurd (List.head_eq_of_cons_eq h ▸ List.mem_cons_self) hv
  | cons x u ih =>
      cases v with
      | nil => exact absurd ((List.head_eq_of_cons_eq h).symm ▸ List.mem_cons_self) hu
      | cons y v =>
          obtain ⟨rfl, rfl⟩ := ih (fun m => hu (List.mem_cons_of_mem _ m))
            (fun m => hv (List.mem_cons_of_mem _ m)) (List.tail_eq_of_cons_eq h)
          rw [List.head_eq_of_cons_eq h]
          exact ⟨rfl, rfl⟩

/-- The path of the first file can be read off. -/
theorem path_inj {p q : FilePath} {a b : List UInt8}
    (h : utf8 p.text ++ 0 :: a = utf8 q.text ++ 0 :: b) : p = q ∧ a = b := by
  obtain ⟨text, rest⟩ := split_at_zero p.zero_notMem q.zero_notMem h
  exact ⟨FilePath.text_injective (utf8_injective text), rest⟩

/-- The stream of some files ends with a zero byte. -/
theorem stream_concat (content : List UInt8) (files : List (FilePath × List UInt8)) :
    ∃ b, content ++ 0 :: stream files = b ++ [0] := by
  induction files generalizing content with
  | nil => exact ⟨content, rfl⟩
  | cons f files ih =>
      obtain ⟨b, same⟩ := ih f.2
      refine ⟨content ++ 0 :: (utf8 f.1.text ++ 0 :: b), ?_⟩
      rw [stream, same]
      simp only [List.append_assoc, List.cons_append]

theorem Bundle.ext {m m' : Bundle} (h : m.files = m'.files) : m = m' := by
  obtain ⟨files, _, _⟩ := m
  cases h
  rfl

/-! ## Directories with a stream of their own -/

/-- Some piece of a content, between two zero bytes, can be taken for the path of another file. -/
def Imitates (p : FilePath) (content : List UInt8) : Prop :=
  ∃ (a : List UInt8) (q : FilePath) (b : List UInt8),
    content = a ++ 0 :: (utf8 q.text ++ 0 :: b) ∧ p.names < q.names ∧ p.Apart q

/-- Two files are hashed like one. -/
theorem stream_merge (p q : FilePath) (a b : List UInt8) (files : List (FilePath × List UInt8)) :
    stream ((p, a ++ 0 :: (utf8 q.text ++ 0 :: b)) :: files) =
      stream ((p, a) :: (q, b) :: files) := by
  simp only [stream, List.append_assoc, List.cons_append]

/-- A file whose content imitates a path may as well be two files. -/
theorem Bundle.not_alone_imitates {m : Bundle} {p : FilePath} {content : List UInt8}
    (files : m.files = [(p, content)]) (imitates : Imitates p content) :
    ∃ m' : Bundle, stream m'.files = stream m.files ∧ m' ≠ m := by
  obtain ⟨a, q, b, rfl, before, other⟩ := imitates
  refine ⟨⟨[(p, a), (q, b)], List.pairwise_pair.2 before, List.pairwise_pair.2 other⟩, ?_, ?_⟩
  · rw [files]
    exact (stream_merge p q a b []).symm
  · intro same
    have length := congrArg (fun m : Bundle => m.files.length) same
    rw [files] at length
    cases length

/-- The second file may as well be in the content of the first. -/
theorem Bundle.not_alone_merge {m : Bundle} {p q : FilePath} {a b : List UInt8}
    {rest : List (FilePath × List UInt8)} (files : m.files = (p, a) :: (q, b) :: rest) :
    ∃ m' : Bundle, stream m'.files = stream m.files ∧ m' ≠ m := by
  have sorted := m.sorted
  have apart := m.apart
  rw [files] at sorted apart
  have merged : ∀ R : FilePath → FilePath → Prop,
      ((p, a) :: (q, b) :: rest).Pairwise (fun f g => R f.1 g.1) →
      ((p, a ++ 0 :: (utf8 q.text ++ 0 :: b)) :: rest).Pairwise fun f g => R f.1 g.1 := by
    intro R h
    obtain ⟨first, others⟩ := List.pairwise_cons.1 h
    exact List.pairwise_cons.2 ⟨fun f hf => first f (List.mem_cons_of_mem _ hf),
      (List.pairwise_cons.1 others).2⟩
  refine ⟨⟨(p, a ++ 0 :: (utf8 q.text ++ 0 :: b)) :: rest,
    merged (fun p q => p.names < q.names) sorted,
    merged FilePath.Apart apart⟩, ?_, ?_⟩
  · rw [files]
    exact stream_merge p q a b rest
  · intro same
    have length := congrArg (fun m : Bundle => m.files.length) same
    rw [files] at length
    simp at length

/-- The stream of one file that imitates nothing is that of no other directory. -/
theorem Bundle.alone_single {m m' : Bundle} {p : FilePath} {content : List UInt8}
    (files : m.files = [(p, content)]) (honest : ¬Imitates p content)
    (same : stream m'.files = stream m.files) : m' = m := by
  refine Bundle.ext ?_
  have sorted := m'.sorted
  have apart := m'.apart
  rw [files] at same ⊢
  match h : m'.files with
  | [] =>
      rw [h, stream] at same
      simp [stream] at same
  | [(p', content')] =>
      rw [h] at same
      obtain ⟨rfl, rest⟩ := path_inj same
      obtain ⟨rfl, -⟩ := List.append_inj' rest rfl
      rfl
  | (p', a) :: (q, b) :: others =>
      rw [h] at same sorted apart
      obtain ⟨rfl, rest⟩ := path_inj same
      obtain ⟨tail, ends⟩ := stream_concat b others
      refine absurd ⟨a, q, tail, ?_, (List.pairwise_cons.1 sorted).1 _ List.mem_cons_self,
        (List.pairwise_cons.1 apart).1 _ List.mem_cons_self⟩ honest
      have second : stream ((q, b) :: others) = utf8 q.text ++ 0 :: (b ++ 0 :: stream others) := rfl
      rw [second, ends] at rest
      have last : (a ++ 0 :: (utf8 q.text ++ 0 :: tail)) ++ [0] = content ++ [0] := by
        simpa [stream] using rest
      exact (List.append_inj' last rfl).1.symm

/-- A directory is the only one with its stream if and only if it has at most one file, and no
piece of its content imitates a path. -/
theorem Bundle.alone_iff (m : Bundle) :
    (∀ m' : Bundle, stream m'.files = stream m.files → m' = m) ↔
      m.files.length ≤ 1 ∧ ∀ f ∈ m.files, ¬Imitates f.1 f.2 := by
  match h : m.files with
  | [] =>
      refine iff_of_true (fun m' same => ?_)
        ⟨Nat.zero_le 1, fun f hf => absurd hf List.not_mem_nil⟩
      match h' : m'.files with
      | [] => exact Bundle.ext (h'.trans h.symm)
      | f :: files =>
          rw [h'] at same
          simp [stream] at same
  | [(p, content)] =>
      refine ⟨fun alone => ⟨Nat.le_refl 1, fun f hf imitates => ?_⟩, fun honest m' same => ?_⟩
      · cases List.mem_singleton.1 hf
        obtain ⟨m', same, other⟩ := Bundle.not_alone_imitates h imitates
        exact other (alone m' (h ▸ same))
      · exact Bundle.alone_single h (honest.2 _ List.mem_cons_self) (h ▸ same)
  | (p, a) :: (q, b) :: rest =>
      refine iff_of_false (fun alone => ?_) (fun honest => ?_)
      · obtain ⟨m', same, other⟩ := Bundle.not_alone_merge h
        exact other (alone m' (h ▸ same))
      · have := honest.1
        simp at this

/-- The path of a file at the top. -/
def topFile (n : String) (h : IsName n) : FilePath where
  names := [n]
  nonempty := List.cons_ne_nil _ _
  valid _ hm := List.mem_singleton.1 hm ▸ h

/-- The package file. -/
def skillFile : FilePath × List UInt8 :=
  (topFile "SKILL.md" (by decide), utf8 "---\nname: notes\nversion: 1\n---\n")

/-- A skill with two more files. -/
def Bundle.apartNotes : Bundle where
  files := [skillFile, (topFile "a.txt" (by decide), utf8 "x"),
    (topFile "b.txt" (by decide), utf8 "y")]
  sorted := by decide
  apart := by decide

/-- The same skill with the two files in one. -/
def Bundle.mergedNotes : Bundle where
  files := [skillFile,
    (topFile "a.txt" (by decide), utf8 "x" ++ 0 :: (utf8 "b.txt" ++ 0 :: utf8 "y"))]
  sorted := by decide
  apart := by decide

/-- Two skills with the same digest. -/
theorem Bundle.digest_collides :
    stream Bundle.apartNotes.files = stream Bundle.mergedNotes.files ∧
      Bundle.apartNotes ≠ Bundle.mergedNotes := by
  refine ⟨by decide +kernel, fun same => ?_⟩
  have length := congrArg (fun m : Bundle => m.files.length) same
  exact absurd length (by decide)

end CodeForge.Skills
