import Mathlib.Data.List.Sort
import DbaBrain.Foundation.Regex

/-!
# One expression for many words

The words are folded into a trie, and the trie is written as nested groups: one branch
for each character that may come next, the whole optional where a word ends too.  The
expression matches the words and nothing else, the longest first; folded and compiled
with IGNORECASE, the words in any case.
-/

namespace DbaBrain.Lib.TrieRegex

open DbaBrain.Foundation DbaBrain.Foundation.Regex

/-! ## The trie -/

/-- The entries of one node's dictionary in the order they came: a character, whether a word ends behind it, what is
under it, and the entries after. -/
inductive Trie
  | nil
  | entry (char : Char) (ends : Bool) (under others : Trie)
  deriving DecidableEq

/-- A word by itself. -/
def Trie.chain : List Char → Trie
  | [] => .nil
  | c :: word => .entry c word.isEmpty (chain word) .nil

/-- The characters of a word are set one under another, and its end is marked. -/
def Trie.insert : Trie → List Char → Trie
  | trie, [] => trie
  | .nil, c :: word => chain (c :: word)
  | .entry d ends under others, c :: word =>
      if d = c then .entry d (ends || word.isEmpty) (under.insert word) others
      else .entry d ends under (others.insert (c :: word))

/-- `_node`, of the branches its children are written as. -/
def nodeText (ends : Bool) (children : List (Char × List Char)) : List Char :=
  let branches := (children.insertionSort fun left right => left.1 ≤ right.1).map Prod.snd
  match branches with
  | [] => []
  | first :: others =>
      let body := if others = [] then first else "(?:".toList ++ ['|'].intercalate branches ++ [')']
      if ends then
        (if others = [] ∧ 1 < body.length then "(?:".toList ++ body ++ [')'] else body) ++ ['?']
      else body

/-- Each entry's character with the text of its branch. -/
def Trie.branches : Trie → List (Char × List Char)
  | .nil => []
  | .entry c ends under others => (c, escape c ++ nodeText ends under.branches) :: others.branches

/-- A word as it goes into the trie. -/
def spelled (lower : List Char → List Char) (fold : Bool) (word : List Char) : List Char :=
  if fold then lower word else word

/-- What the words leave at the root: whether an empty one ends there, and the trie. -/
def build (lower : List Char → List Char) (fold : Bool) (words : List (List Char)) : Bool × Trie :=
  words.foldl (fun root word =>
    if word = [] then root
    else
      let word := spelled lower fold word
      (root.1 || word.isEmpty, root.2.insert word)) (false, .nil)

def alternation (lower : List Char → List Char) (fold : Bool) (words : List (List Char)) : List Char :=
  let root := build lower fold words
  if root = (false, .nil) then "(?!)".toList else "(?:".toList ++ nodeText root.1 root.2.branches ++ [')']

/-! ## The words of a trie -/

/-- What a character leads to. -/
def Trie.lookup : Trie → Char → Option (Bool × Trie)
  | .nil, _ => none
  | .entry d ends under others, c => if d = c then some (ends, under) else others.lookup c

def holds : Bool → Trie → List Char → Bool
  | ends, _, [] => ends
  | _, trie, c :: word =>
      match trie.lookup c with
      | none => false
      | some next => holds next.1 next.2 word

/-- The characters under a node are distinct and of a kind, and where nothing is under one a word ends there. -/
def Sound (kind : Char → Prop) : Trie → Prop
  | .nil => True
  | .entry c ends under others =>
      kind c ∧ others.lookup c = none ∧ (under = .nil → ends = true) ∧ Sound kind under ∧ Sound kind others

section Words

variable {kind : Char → Prop} {trie : Trie} {ends : Bool} {c d : Char} {word : List Char}

theorem insert_nil (word : List Char) : Trie.nil.insert word = Trie.chain word := by
  cases word <;> rfl

theorem chain_eq_nil : Trie.chain word = .nil ↔ word = [] := by
  cases word <;> simp [Trie.chain]

theorem insert_eq_nil : trie.insert word = .nil ↔ trie = .nil ∧ word = [] := by
  cases word with
  | nil => cases trie <;> simp [Trie.insert]
  | cons c word =>
    cases trie with
    | nil => simp [Trie.insert, Trie.chain]
    | entry d ends under others =>
      rw [Trie.insert]
      split <;> simp

/-- A word changes what its first character leads to, and nothing else. -/
theorem lookup_insert (trie : Trie) (c : Char) (word : List Char) (d : Char) : (trie.insert (c :: word)).lookup d =
    if d = c then
      let next := (trie.lookup c).getD (false, .nil)
      some (next.1 || word.isEmpty, next.2.insert word)
    else trie.lookup d := by
  induction trie with
  | nil =>
    rw [insert_nil, Trie.chain, Trie.lookup]
    by_cases same : d = c
    · simp [same, Trie.lookup, insert_nil]
    · simp [same, Ne.symm same, Trie.lookup]
  | entry e ends under others _ ih =>
    rw [Trie.insert]
    by_cases first : e = c
    · rw [if_pos first]
      by_cases same : d = c
      · simp [same, first, Trie.lookup]
      · simp [same, first, Ne.symm same, Trie.lookup]
    · rw [if_neg first, Trie.lookup, ih]
      by_cases same : d = c
      · have other : e ≠ d := fun equal => first (equal.trans same)
        simp [same, first, Trie.lookup]
      · simp [same, Trie.lookup]

theorem holds_nil (word : List Char) : holds false .nil word = false := by
  cases word <;> rfl

/-- A trie holds what it held and the word that was put in. -/
theorem holds_insert (ends : Bool) (trie : Trie) (word other : List Char) :
    holds (ends || word.isEmpty) (trie.insert word) other = (holds ends trie other || decide (other = word)) := by
  induction other generalizing ends trie word with
  | nil => cases word <;> simp [holds]
  | cons d other ih =>
    cases word with
    | nil => simp [holds, Trie.insert]
    | cons c word =>
      rw [holds, holds, lookup_insert]
      by_cases same : d = c
      · rw [if_pos same]
        dsimp only
        rw [ih, same]
        cases trie.lookup c with
        | none => simp [holds_nil]
        | some next => simp
      · rw [if_neg same]
        cases trie.lookup d <;> simp [same]

theorem sound_chain (kinds : ∀ c ∈ word, kind c) : Sound kind (Trie.chain word) := by
  induction word with
  | nil => trivial
  | cons c word ih =>
    obtain ⟨first, kinds⟩ := List.forall_mem_cons.mp kinds
    refine ⟨first, rfl, fun empty => ?_, ih kinds, trivial⟩
    rw [chain_eq_nil.mp empty]
    rfl

theorem sound_insert (sound : Sound kind trie) (kinds : ∀ c ∈ word, kind c) : Sound kind (trie.insert word) := by
  induction trie generalizing word with
  | nil => rw [insert_nil]; exact sound_chain kinds
  | entry d ends under others ih_under ih_others =>
    cases word with
    | nil => exact sound
    | cons c word =>
      obtain ⟨first, alone, full, sound_under, sound_others⟩ := sound
      rw [Trie.insert]
      split
      · refine ⟨first, alone, fun empty => ?_, ih_under sound_under (List.forall_mem_cons.mp kinds).2, sound_others⟩
        rw [(insert_eq_nil.mp empty).2]
        simp
      · next other =>
          refine ⟨first, ?_, full, sound_under, ih_others sound_others kinds⟩
          rw [lookup_insert, if_neg other]
          exact alone

/-- The words as they go into the trie. -/
def entries (lower : List Char → List Char) (fold : Bool) (words : List (List Char)) : List (List Char) :=
  (words.filter fun word => word ≠ []).map (spelled lower fold)

def put (root : Bool × Trie) (word : List Char) : Bool × Trie := (root.1 || word.isEmpty, root.2.insert word)

theorem build_eq (lower : List Char → List Char) (fold : Bool) (words : List (List Char)) :
    build lower fold words = (entries lower fold words).foldl put (false, .nil) := by
  unfold build entries
  generalize (false, Trie.nil) = root
  induction words generalizing root with
  | nil => rfl
  | cons word words ih =>
    rw [List.foldl_cons, ih]
    by_cases empty : word = []
    · rw [if_pos empty, List.filter_cons_of_neg (by simpa using empty)]
    · rw [if_neg empty, List.filter_cons_of_pos (by simpa using empty)]
      rfl

theorem holds_foldl (words : List (List Char)) (kinds : ∀ word ∈ words, ∀ c ∈ word, kind c) (root : Bool × Trie)
    (sound : Sound kind root.2) (word : List Char) :
    Sound kind (words.foldl put root).2 ∧ (holds (words.foldl put root).1 (words.foldl put root).2 word = true ↔
      holds root.1 root.2 word = true ∨ word ∈ words) := by
  induction words generalizing root with
  | nil => exact ⟨sound, by simp⟩
  | cons first words ih =>
    obtain ⟨kinds_first, kinds⟩ := List.forall_mem_cons.mp kinds
    obtain ⟨sound', holds'⟩ := ih kinds (put root first) (sound_insert sound kinds_first)
    refine ⟨sound', holds'.trans ?_⟩
    rw [put, holds_insert, Bool.or_eq_true, decide_eq_true_eq, List.mem_cons, or_assoc]

/-- The trie holds the words that are not empty. -/
theorem holds_build {lower : List Char → List Char} {fold : Bool} {words : List (List Char)}
    (kinds : ∀ word ∈ entries lower fold words, ∀ c ∈ word, kind c) (word : List Char) :
    Sound kind (build lower fold words).2 ∧
      (holds (build lower fold words).1 (build lower fold words).2 word = true ↔ word ∈ entries lower fold words) := by
  obtain ⟨sound, same⟩ := holds_foldl _ kinds (false, .nil) trivial word
  rw [build_eq]
  refine ⟨sound, same.trans ?_⟩
  rw [holds_nil]
  simp

end Words

/-! ## What is left behind the words of a trie -/

/-- What is left of a text behind each word of a trie that it begins with, the longest word first; `key` says which
character of the trie one of the text is. -/
def rests (key : Char → Char) : Bool → Trie → List Char → List (List Char)
  | ends, _, [] => if ends then [[]] else []
  | ends, trie, c :: text =>
      (match trie.lookup (key c) with
        | none => []
        | some next => rests key next.1 next.2 text) ++ if ends then [c :: text] else []

section Rests

variable {canon key : Char → Char}

theorem mem_rests (ends : Bool) (trie : Trie) (text rest : List Char) :
    rest ∈ rests key ends trie text ↔ ∃ word, text = word ++ rest ∧ holds ends trie (word.map key) = true := by
  induction text generalizing ends trie with
  | nil =>
    rw [rests]
    constructor
    · intro member
      split at member
      · next final => exact ⟨[], (List.mem_singleton.mp member).symm, final⟩
      · cases member
    · rintro ⟨word, cut, held⟩
      obtain ⟨rfl, rfl⟩ := List.append_eq_nil_iff.mp cut.symm
      rw [List.map_nil, holds] at held
      rw [if_pos held]
      exact List.mem_singleton_self _
  | cons c text ih =>
    rw [rests, List.mem_append]
    constructor
    · rintro (inside | whole)
      · cases found : trie.lookup (key c) with
        | none =>
          rw [found] at inside
          cases inside
        | some next =>
          rw [found] at inside
          obtain ⟨word, cut, held⟩ := (ih next.1 next.2).mp inside
          exact ⟨c :: word, congrArg (c :: ·) cut, by rw [List.map_cons, holds, found]; exact held⟩
      · split at whole
        · next final => exact ⟨[], (List.mem_singleton.mp whole).symm, final⟩
        · cases whole
    · rintro ⟨word, cut, held⟩
      cases word with
      | nil =>
        rw [List.map_nil, holds] at held
        rw [if_pos held]
        exact Or.inr (List.mem_singleton.mpr cut.symm)
      | cons d word =>
        rw [List.cons_append, List.cons.injEq] at cut
        obtain ⟨rfl, cut⟩ := cut
        rw [List.map_cons, holds] at held
        cases found : trie.lookup (key c) with
        | none =>
          rw [found] at held
          exact absurd held Bool.false_ne_true
        | some next =>
          rw [found] at held
          exact Or.inl ((ih next.1 next.2).mpr ⟨word, cut, held⟩)

theorem rests_longest_first (ends : Bool) (trie : Trie) (text : List Char) :
    (rests key ends trie text).Pairwise fun first later => first.length < later.length := by
  induction text generalizing ends trie with
  | nil =>
    rw [rests]
    split <;> simp
  | cons c text ih =>
    rw [rests, List.pairwise_append]
    refine ⟨?_, by split <;> simp, fun first inside later whole => ?_⟩
    · cases trie.lookup (key c) with
      | none => exact .nil
      | some next => exact ih next.1 next.2
    · have same : later = c :: text := by
        split at whole
        · exact List.mem_singleton.mp whole
        · cases whole
      cases found : trie.lookup (key c) with
      | none =>
        rw [found] at inside
        cases inside
      | some next =>
        rw [found] at inside
        obtain ⟨word, cut, -⟩ := (mem_rests next.1 next.2 text first).mp inside
        rw [same, cut, List.length_cons, List.length_append]
        omega

/-- A character is one of the trie's exactly where it is what `canon` makes the two equal by. -/
def Keyed (canon key : Char → Char) (c : Char) : Prop := ∀ d, canon d = canon c ↔ key d = c

/-! ## What the expression is read as -/

def Branched (canon key : Char → Char) (trie : Trie) (branch : Char × List Char) : Prop :=
  ∃ items next, Reads branch.2 items ∧ trie.lookup branch.1 = some next ∧ (∃ more, branch.2 = escape branch.1 ++ more) ∧
    ∀ text, Regex.ends canon (seqOf items) text = match text with
      | [] => []
      | c :: text => if key c = branch.1 then rests key next.1 next.2 text else []

variable {branches : List (Char × List Char)} {trie : Trie} {lower : List Char → List Char} {fold : Bool}
  {words : List (List Char)}

theorem flatMap_branches (distinct : (branches.map Prod.fst).Nodup) (c : Char) (body : List (List Char))
    (matched : Char × List Char → List (List Char))
    (each : ∀ branch ∈ branches, matched branch = if c = branch.1 then body else []) :
    branches.flatMap matched = if c ∈ branches.map Prod.fst then body else [] := by
  induction branches with
  | nil => rfl
  | cons branch branches ih =>
    obtain ⟨first, later⟩ := List.forall_mem_cons.mp each
    obtain ⟨alone, distinct⟩ := List.nodup_cons.mp distinct
    rw [List.flatMap_cons, first, ih distinct later, List.map_cons]
    by_cases same : c = branch.1
    · rw [if_pos same, if_neg (same ▸ alone), if_pos (same ▸ List.mem_cons_self), List.append_nil]
    · rw [if_neg same, List.nil_append]
      by_cases inside : c ∈ branches.map Prod.fst
      · rw [if_pos inside, if_pos (List.mem_cons_of_mem _ inside)]
      · rw [if_neg inside, if_neg fun member => (List.mem_cons.mp member).elim same inside]

theorem branches_eq_nil : trie.branches = [] ↔ trie = .nil := by
  cases trie <;> simp [Trie.branches]

theorem ends_branches (same : branches.Perm trie.branches) (distinct : (trie.branches.map Prod.fst).Nodup)
    (every : ∀ c next, trie.lookup c = some next → c ∈ trie.branches.map Prod.fst)
    (items : Char × List Char → List Pattern) (each : ∀ branch ∈ branches, ∃ next, trie.lookup branch.1 = some next ∧
      ∀ text, Regex.ends canon (seqOf (items branch)) text = match text with
        | [] => []
        | c :: text => if key c = branch.1 then rests key next.1 next.2 text else []) (ends : Bool) (text : List Char) :
    (branches.flatMap fun branch => Regex.ends canon (seqOf (items branch)) text) ++ (if ends then [text] else []) =
      rests key ends trie text := by
  have keys : (branches.map Prod.fst).Perm (trie.branches.map Prod.fst) := same.map _
  cases text with
  | nil =>
    rw [rests, List.flatMap_eq_nil_iff.mpr, List.nil_append]
    intro branch member
    obtain ⟨next, -, meaning⟩ := each branch member
    exact meaning []
  | cons c text =>
    rw [rests]
    congr 1
    rw [flatMap_branches (keys.nodup_iff.mpr distinct) (key c) (match trie.lookup (key c) with
      | none => []
      | some next => rests key next.1 next.2 text)]
    · cases found : trie.lookup (key c) with
      | none => simp
      | some next => rw [if_pos (keys.mem_iff.mpr (every _ next found))]
    · intro branch member
      obtain ⟨next, found, meaning⟩ := each branch member
      rw [meaning]
      dsimp only
      by_cases equal : key c = branch.1
      · rw [if_pos equal, if_pos equal, equal, found]
      · rw [if_neg equal, if_neg equal]

theorem group_reads (filled : branches ≠ []) {items : Char × List Char → List Pattern}
    (reads : ∀ branch ∈ branches, Reads branch.2 (items branch)) :
    ReadsFirm ("(?:".toList ++ ['|'].intercalate (branches.map Prod.snd) ++ [')'])
      [altOf (branches.map fun branch => seqOf (items branch))] := by
  have group := readsFirm_group (fun empty => filled (List.map_eq_nil_iff.mp empty))
    (List.forall_mem_map.mpr reads : ∀ branch ∈ branches.map (fun branch => (branch.2, items branch)),
      Reads branch.1 branch.2)
  rw [List.map_map, List.map_map] at group
  exact group

/-- One character alone stands without a group. -/
theorem eq_escape_of_short {c : Char} {text more : List Char} (spelled : text = escape c ++ more)
    (few : ¬ 1 < text.length) : text = escape c := by
  have filled : 0 < (escape c).length := by
    unfold escape
    split <;> simp
  have lengths := congrArg List.length spelled
  rw [List.length_append] at lengths
  have nothing : more = [] := List.length_eq_zero_iff.mp (by omega)
  rw [spelled, nothing, List.append_nil]

/-- A node is read as items that match the words that go on from it. -/
theorem node_reads (each : ∀ branch ∈ trie.branches, Branched canon key trie branch)
    (every : ∀ c next, trie.lookup c = some next → c ∈ trie.branches.map Prod.fst)
    (distinct : (trie.branches.map Prod.fst).Nodup) {ends : Bool} (full : trie = .nil → ends = true) :
    ∃ items, Reads (nodeText ends trie.branches) items ∧
      ∀ text, Regex.ends canon (seqOf items) text = rests key ends trie text := by
  have same := List.perm_insertionSort (fun left right : Char × List Char => left.1 ≤ right.1) trie.branches
  unfold nodeText
  generalize trie.branches.insertionSort (fun left right : Char × List Char => left.1 ≤ right.1) = branches at same
  have each' : ∀ branch ∈ branches, Branched canon key trie branch :=
    fun branch member => each branch (same.mem_iff.mp member)
  choose! items reading using each'
  have reads : ∀ branch ∈ branches, Reads branch.2 (items branch) := fun branch member => by
    obtain ⟨next, reads, -⟩ := reading branch member
    exact reads
  have meaning : ∀ (ends : Bool) (text : List Char),
      (branches.flatMap fun branch => Regex.ends canon (seqOf (items branch)) text) ++ (if ends then [text] else []) =
        rests key ends trie text := by
    refine ends_branches same distinct every items fun branch member => ?_
    obtain ⟨next, -, found, -, meaning⟩ := reading branch member
    exact ⟨next, found, meaning⟩
  cases branches with
  | nil =>
    have empty : trie = .nil := branches_eq_nil.mp (List.nil_perm.mp same)
    refine ⟨[], readsFirm_nil.reads, fun text => ?_⟩
    rw [← meaning, full empty]
    rfl
  | cons first others =>
    have group := group_reads (List.cons_ne_nil first others) reads
    have alternatives (text : List Char) :
        Regex.ends canon (altOf ((first :: others).map fun branch => seqOf (items branch))) text =
          (first :: others).flatMap fun branch => Regex.ends canon (seqOf (items branch)) text := by
      rw [ends_altOf, List.flatMap_map]
    have whole (ends : Bool) (text : List Char) :
        Regex.ends canon (altOf ((first :: others).map fun branch => seqOf (items branch))) text ++
          (if ends then [text] else []) = rests key ends trie text := by rw [alternatives, meaning]
    have optional (text : List Char) :
        Regex.ends canon (seqOf [.optional (altOf ((first :: others).map fun branch => seqOf (items branch)))]) text =
          rests key true trie text := by
      rw [ends_seqOf_singleton]
      exact whole true text
    cases others with
    | nil =>
      obtain ⟨next, first_reads, -, ⟨more, spelled⟩, -⟩ := reading first List.mem_cons_self
      have alone (text : List Char) : Regex.ends canon (seqOf (items first)) text = rests key false trie text := by
        have both := meaning false text
        rwa [List.flatMap_singleton, if_neg Bool.false_ne_true, List.append_nil] at both
      rw [List.map_singleton]
      dsimp only
      rw [if_pos rfl]
      cases ends with
      | false => exact ⟨items first, first_reads, alone⟩
      | true =>
        rw [if_pos rfl]
        split
        · have grouped := group.optional
          rw [List.map_singleton, List.intercalate_singleton] at grouped
          exact ⟨_, grouped, optional⟩
        · next short =>
            have plain := eq_escape_of_short spelled fun long => short ⟨rfl, long⟩
            have firm : ReadsFirm first.2 [.char first.1] := plain ▸ readsFirm_escape first.1
            refine ⟨_, firm.optional, fun text => ?_⟩
            rw [← meaning true text, List.flatMap_singleton, seqOf_eq_of_reads first_reads firm.reads,
              ends_seqOf_singleton, ends_seqOf_singleton]
            rfl
    | cons second others =>
      rw [List.map_cons, List.map_cons]
      dsimp only
      rw [if_neg (List.cons_ne_nil _ _)]
      cases ends with
      | false =>
        refine ⟨_, group.reads, fun text => ?_⟩
        rw [ends_seqOf_singleton]
        exact (List.append_nil _).symm.trans (whole false text)
      | true =>
        rw [if_pos rfl, if_neg fun both => List.cons_ne_nil _ _ both.1]
        exact ⟨_, group.optional, optional⟩

variable {c : Char}

theorem lookup_mem {next : Bool × Trie} (found : trie.lookup c = some next) : c ∈ trie.branches.map Prod.fst := by
  induction trie with
  | nil => cases found
  | entry d ends under others _ ih =>
    rw [Trie.lookup] at found
    split at found
    · next same => exact same ▸ List.mem_cons_self
    · exact List.mem_cons_of_mem _ (ih found)

theorem mem_lookup (member : c ∈ trie.branches.map Prod.fst) : trie.lookup c ≠ none := by
  induction trie with
  | nil => cases member
  | entry d ends under others _ ih =>
    rw [Trie.lookup]
    split
    · exact Option.some_ne_none _
    · next other =>
        rcases List.mem_cons.mp member with same | later
        · exact absurd same.symm other
        · exact ih later

theorem nodup_branches {kind : Char → Prop} (sound : Sound kind trie) : (trie.branches.map Prod.fst).Nodup := by
  induction trie with
  | nil => exact .nil
  | entry d ends under others _ ih =>
    obtain ⟨-, alone, -, -, sound_others⟩ := sound
    exact List.nodup_cons.mpr ⟨fun member => mem_lookup member alone, ih sound_others⟩

/-- Every branch of a trie is read as its character and what goes on behind it. -/
theorem branched (sound : Sound (Keyed canon key) trie) : ∀ branch ∈ trie.branches, Branched canon key trie branch := by
  induction trie with
  | nil => exact fun branch member => absurd member List.not_mem_nil
  | entry c ends under others ih_under ih_others =>
    obtain ⟨keyed, alone, full, sound_under, sound_others⟩ := sound
    refine List.forall_mem_cons.mpr ⟨?_, fun branch member => ?_⟩
    · obtain ⟨items, reads, meaning⟩ := node_reads (ih_under sound_under) (fun c next => lookup_mem)
        (nodup_branches sound_under) full
      refine ⟨.char c :: items, (ends, under), (readsFirm_escape c).append reads, if_pos rfl, ⟨_, rfl⟩, fun text => ?_⟩
      rw [ends_seqOf_cons]
      cases text with
      | nil => rfl
      | cons d text =>
        dsimp only
        rw [Regex.ends, if_congr (keyed d) rfl rfl]
        split
        · rw [List.flatMap_singleton, meaning]
        · rfl
    · obtain ⟨items, next, reads, found, spelled, meaning⟩ := ih_others sound_others branch member
      have other : c ≠ branch.1 := by
        rintro rfl
        exact Option.some_ne_none _ (found.symm.trans alone)
      exact ⟨items, next, reads, (if_neg other).trans found, spelled, meaning⟩

/-! ## The expression -/

/-- The expression is read, and behind each match it leaves what the trie leaves. -/
theorem read_alternation (keyed : ∀ word ∈ entries lower fold words, ∀ c ∈ word, Keyed canon key c) :
    ∃ pattern, Regex.read (alternation lower fold words) = some pattern ∧ ∀ text,
      Regex.ends canon pattern text = rests key (build lower fold words).1 (build lower fold words).2 text := by
  have sound := (holds_build keyed []).1
  unfold alternation
  dsimp only
  split
  · next empty =>
      refine ⟨altOf [seqOf [.never]], rfl, fun text => ?_⟩
      rw [empty]
      cases text <;> rfl
  · next filled =>
      have full : (build lower fold words).2 = .nil → (build lower fold words).1 = true := by
        intro none
        rw [← Bool.not_eq_false]
        exact fun unended => filled (Prod.ext unended none)
      obtain ⟨items, reads, meaning⟩ := node_reads (branched sound) (fun c next => lookup_mem) (nodup_branches sound)
        full
      have group := readsFirm_group (List.cons_ne_nil (nodeText _ _, items) [])
        (List.forall_mem_singleton.mpr reads) .new [] []
      rw [List.map_singleton, List.intercalate_singleton, List.append_nil] at group
      refine ⟨altOf [seqOf [altOf [seqOf items]]], group, fun text => ?_⟩
      have single (pattern : Pattern) : Regex.ends canon (altOf [pattern]) text = Regex.ends canon pattern text := by
        rw [ends_altOf, List.flatMap_singleton]
      rw [single, ends_seqOf_singleton, single, meaning]

/-- A text is a word of some that is not empty, as `canon` compares them. -/
def IsWord (canon : Char → Char) (words : List (List Char)) (text : List Char) : Prop :=
  ∃ word ∈ words, word ≠ [] ∧ text.map canon = word.map canon

/-- An expression matches, where it is tried, the words that begin there and nothing else, the longest first; a search
finds the first place where a word begins, and the longest that begins there. -/
def Means (canon : Char → Char) (expression : List Char) (words : List (List Char)) : Prop :=
  ∃ pattern, Regex.read expression = some pattern ∧
    (∀ text rest, rest ∈ Regex.ends canon pattern text ↔ ∃ word, text = word ++ rest ∧ IsWord canon words word) ∧
    (∀ text, (Regex.ends canon pattern text).Pairwise fun first later => first.length < later.length) ∧
    (∀ text before word after, search canon pattern text = some (before, word, after) →
      text = before ++ word ++ after ∧ IsWord canon words word ∧
        (∀ other, other <+: word ++ after → IsWord canon words other → other.length ≤ word.length) ∧
        ∀ front back, text = front ++ back → front.length < before.length →
          ∀ other, other <+: back → ¬ IsWord canon words other) ∧
    ∀ text, search canon pattern text = none ↔ ∀ front back, text = front ++ back →
      ∀ other, other <+: back → ¬ IsWord canon words other

theorem map_key_eq_iff {spelled : List Char} (keyed : ∀ c ∈ spelled, Keyed canon key c) (text : List Char) :
    text.map key = spelled ↔ text.map canon = spelled.map canon := by
  induction spelled generalizing text with
  | nil => simp
  | cons c spelled ih =>
    obtain ⟨first, keyed⟩ := List.forall_mem_cons.mp keyed
    cases text with
    | nil => simp
    | cons d text =>
      rw [List.map_cons, List.map_cons, List.map_cons, List.cons.injEq, List.cons.injEq, ih keyed, first d]

/-- The trie's words are the words, as `canon` compares them. -/
theorem mem_entries_iff (keyed : ∀ word ∈ entries lower fold words, ∀ c ∈ word, Keyed canon key c)
    (alike : ∀ word ∈ words, (spelled lower fold word).map canon = word.map canon) (text : List Char) :
    text.map key ∈ entries lower fold words ↔ IsWord canon words text := by
  have member {word : List Char} (inside : word ∈ words) (filled : word ≠ []) :
      spelled lower fold word ∈ entries lower fold words :=
    List.mem_map_of_mem (List.mem_filter.mpr ⟨inside, decide_eq_true filled⟩)
  constructor
  · intro inside
    obtain ⟨word, kept, same⟩ := List.mem_map.mp inside
    obtain ⟨inside, filled⟩ := List.mem_filter.mp kept
    have filled := of_decide_eq_true filled
    refine ⟨word, inside, filled, ?_⟩
    rw [← alike word inside]
    exact (map_key_eq_iff (keyed _ (member inside filled)) text).mp same.symm
  · rintro ⟨word, inside, filled, same⟩
    rw [(map_key_eq_iff (keyed _ (member inside filled)) text).mpr (same.trans (alike word inside).symm)]
    exact member inside filled

theorem means_words (keyed : ∀ word ∈ entries lower fold words, ∀ c ∈ word, Keyed canon key c)
    (alike : ∀ word ∈ words, (spelled lower fold word).map canon = word.map canon) :
    Means canon (alternation lower fold words) words := by
  obtain ⟨pattern, read, meaning⟩ := read_alternation keyed
  have matched (text rest : List Char) : rest ∈ Regex.ends canon pattern text ↔
      ∃ word, text = word ++ rest ∧ IsWord canon words word := by
    rw [meaning, mem_rests]
    refine exists_congr fun word => and_congr_right fun _ => ?_
    exact (holds_build keyed (word.map key)).2.trans (mem_entries_iff keyed alike word)
  have unmatched (text : List Char) : Regex.ends canon pattern text = [] ↔
      ∀ other, other <+: text → ¬ IsWord canon words other := by
    rw [List.eq_nil_iff_forall_not_mem]
    refine ⟨fun none other ⟨rest, cut⟩ isWord => ?_, fun none rest member => ?_⟩
    · exact none rest ((matched text rest).mpr ⟨other, cut.symm, isWord⟩)
    · obtain ⟨word, cut, isWord⟩ := (matched text rest).mp member
      exact none word ⟨rest, cut.symm⟩ isWord
  have shortest (text : List Char) :
      (Regex.ends canon pattern text).Pairwise fun first later => first.length < later.length :=
    meaning text ▸ rests_longest_first _ _ text
  refine ⟨pattern, read, matched, shortest, fun text before word after found => ?_, fun text => ?_⟩
  · obtain ⟨spelled, tried, earlier⟩ := search_eq_some found
    obtain ⟨others, listed⟩ := List.head?_eq_some_iff.mp tried
    refine ⟨spelled, ?_, fun other ⟨rest, cut⟩ isWord => ?_, fun front back cut short => ?_⟩
    · obtain ⟨same, cut, isWord⟩ := (matched (word ++ after) after).mp (listed ▸ List.mem_cons_self)
      exact List.append_cancel_right cut ▸ isWord
    · have inside := (matched (word ++ after) rest).mpr ⟨other, cut.symm, isWord⟩
      have order := shortest (word ++ after)
      rw [listed] at inside order
      have lengths := congrArg List.length cut
      rw [List.length_append, List.length_append] at lengths
      rcases List.mem_cons.mp inside with rfl | later
      · omega
      · have longer := (List.pairwise_cons.mp order).1 rest later
        omega
    · exact (unmatched back).mp (earlier front back cut short)
  · rw [search_eq_none]
    exact forall₃_congr fun front back cut => unmatched back

end Rests

/-- Lower-casing leaves a word what it is to IGNORECASE, and no two characters it leaves are one to IGNORECASE. -/
structure Folds (canon : Char → Char) (lower : List Char → List Char) (words : List (List Char)) : Prop where
  alike : ∀ word ∈ words, (lower word).map canon = word.map canon
  apart : ∀ c ∈ words.flatMap lower, ∀ d ∈ words.flatMap lower, canon c = canon d → c = d

variable {canon : Char → Char}

theorem folds_of_all {lower : List Char → List Char} {words : List (List Char)}
    (alike : (words.all fun word => (lower word).map canon = word.map canon) = true)
    (apart : ((words.flatMap lower).all fun c => (words.flatMap lower).all fun d => canon c = canon d → c = d) = true) :
    Folds canon lower words := by
  refine ⟨fun word member => ?_, fun c inside d among => ?_⟩
  · exact of_decide_eq_true (List.all_eq_true.mp alike word member)
  · exact of_decide_eq_true (List.all_eq_true.mp (List.all_eq_true.mp apart c inside) d among)

/-- Which of some characters another one is to IGNORECASE. -/
theorem exists_key {chars : List Char} (apart : ∀ c ∈ chars, ∀ d ∈ chars, canon c = canon d → c = d) :
    ∃ key : Char → Char, ∀ c ∈ chars, Keyed canon key c := by
  classical
  refine ⟨fun d => if found : ∃ c ∈ chars, canon d = canon c then found.choose else d, fun c inside d => ?_⟩
  dsimp only
  split
  · next found =>
      obtain ⟨member, alike⟩ := found.choose_spec
      exact ⟨fun same => apart _ member c inside (alike.symm.trans same), fun same => same ▸ alike⟩
  · next none => exact ⟨fun same => absurd ⟨c, inside, same⟩ none, fun same => congrArg canon same⟩

theorem means_of_folds {lower : List Char → List Char} {words : List (List Char)} (folds : Folds canon lower words) :
    Means canon (alternation lower true words) words := by
  obtain ⟨key, keyed⟩ := exists_key folds.apart
  refine means_words (fun word member c inside => keyed c ?_) folds.alike
  obtain ⟨word, kept, rfl⟩ := List.mem_map.mp member
  exact List.mem_flatMap.mpr ⟨word, (List.mem_filter.mp kept).1, inside⟩

/-- Unfolded the expression means the words; folded, with IGNORECASE, it means them in any case. -/
theorem alternation_means_words (canon : Char → Char) (lower : List Char → List Char) (words : List (List Char)) :
    Means id (alternation lower false words) words ∧
      (Folds canon lower words → Means canon (alternation lower true words) words) :=
  ⟨means_words (fun _ _ c _ d => (Iff.rfl : id d = id c ↔ id d = c)) fun _ _ => rfl, means_of_folds⟩

theorem alternation_means_words_sales :
    let words := ["SALES".toList, [], "sales_EU".toList, "10.1".toList]
    Means id (alternation (List.map Char.toLower) false words) words ∧
      Means Char.toLower (alternation (List.map Char.toLower) true words) words :=
  have both := alternation_means_words Char.toLower (List.map Char.toLower)
    ["SALES".toList, [], "sales_EU".toList, "10.1".toList]
  ⟨both.1, both.2 (folds_of_all (by decide +kernel) (by decide +kernel))⟩

/-- The folded expression of SALES matches sales too, which is none of the words. -/
theorem sales_in_any_case : ¬ ∀ (canon : Char → Char) (lower : List Char → List Char) (words : List (List Char)),
    Folds canon lower words → ∀ pattern, Regex.read (alternation lower true words) = some pattern →
      ∀ text rest, rest ∈ Regex.ends canon pattern text ↔ ∃ word ∈ words, word ≠ [] ∧ text = word ++ rest := by
  intro exact_words
  have folds : Folds Char.toLower (List.map Char.toLower) ["SALES".toList] :=
    folds_of_all (by decide +kernel) (by decide +kernel)
  obtain ⟨pattern, read, matched, -⟩ := means_of_folds folds
  have begins : [] ∈ Regex.ends Char.toLower pattern "sales".toList :=
    (matched _ _).mpr ⟨"sales".toList, by decide +kernel, "SALES".toList, by decide +kernel⟩
  obtain ⟨word, member, -, cut⟩ := (exact_words _ _ _ folds pattern read _ _).mp begins
  rw [List.mem_singleton.mp member] at cut
  exact absurd cut (by decide +kernel)

/-- Words of which one begins another, and one with a sign of expressions. -/
example : alternation id false ["10.1".toList, "10".toList, [], "1a".toList] = "(?:1(?:0(?:\\.1)?|a))".toList := by
  decide +kernel

end DbaBrain.Lib.TrieRegex
