import DbaBrain.Foundation.Finding
import DbaBrain.Foundation.Text

/-!
# A module's header rewritten

The first place of a text where `create`, blanks and a kind of module stand, in
any case, becomes `CREATE OR ALTER` and the kind in capitals.  The place is found
in the text in lower case, and what is in front of it and behind it is kept.
-/

namespace DbaBrain.Lib.ModuleHeaders

open DbaBrain.Foundation.Finding
open DbaBrain.Foundation.Text (isSpace)

def moduleKeywords : List (List Char) :=
  ["procedure".toList, "proc".toList, "view".toList, "function".toList, "trigger".toList]

def create : List Char := "create".toList

/-- `lower`, as far as words of ASCII and blanks are looked for in it: beside the capitals the Kelvin sign and the dotted
capital I have ASCII letters for lower case, and the latter alone two characters. -/
def lowered (text : List Char) : List Char :=
  text.flatMap fun c =>
    if c = Char.ofNat 0x212A then ['k'] else if c = Char.ofNat 0x130 then ['i', Char.ofNat 0x307] else [c.toLower]

/-- The first header of a kind, from a place on: where its `create` begins and where the kind ends. -/
def headerFrom (text keyword : List Char) : Nat → Nat → Option (Nat × Nat)
  | 0, _ => none
  | fuel + 1, index =>
      match find keyword text index with
      | none => none
      | some place =>
          match rfind create text place with
          | none => headerFrom text keyword fuel (place + keyword.length)
          | some head =>
              if ((text.drop (head + create.length)).take (place - (head + create.length))).all isSpace then
                some (head, place + keyword.length)
              else headerFrom text keyword fuel (place + keyword.length)

/-- Where a header begins, where its kind ends, and the kind. -/
abbrev Found := Nat × Nat × List Char

def better (text : List Char) (best : Option Found) (keyword : List Char) : Option Found :=
  match headerFrom text keyword (text.length + 1) 0 with
  | none => best
  | some (head, ends) =>
      match best with
      | none => some (head, ends, keyword)
      | some found => if head < found.1 then some (head, ends, keyword) else best

def headerWord (keyword : List Char) : List Char :=
  if keyword = "procedure".toList ∨ keyword = "proc".toList then "PROCEDURE".toList else keyword.map Char.toUpper

def asCreateOrAlter (text : List Char) : List Char :=
  match moduleKeywords.foldl (better (lowered text)) none with
  | none => text
  | some (head, ends, keyword) =>
      text.take head ++ "CREATE OR ALTER ".toList ++ headerWord keyword ++ text.drop ends

/-! ## Headers of a text -/

/-- `create`, blanks and the kind stand from one place to another. -/
def Mentions (text keyword : List Char) (head ends : Nat) : Prop :=
  ∃ gap, (∀ c ∈ gap, isSpace c = true) ∧ StandsAt (create ++ gap ++ keyword) text head ∧
    ends = head + (create ++ gap ++ keyword).length

/-- What every kind of module is: no blank begins it, and it has no border. -/
structure IsKind (keyword : List Char) : Prop where
  filled : keyword ≠ []
  letter : ∀ c ∈ keyword.head?, isSpace c = false
  unbordered : Unbordered keyword

theorem isKind_of_mem {keyword : List Char} (listed : keyword ∈ moduleKeywords) : IsKind keyword := by
  have filled : ∀ keyword ∈ moduleKeywords, keyword ≠ [] := by decide
  have letter : ∀ keyword ∈ moduleKeywords, (keyword.head?.all fun c => !isSpace c) = true := by decide
  have unbordered : ∀ keyword ∈ moduleKeywords, Unbordered keyword := by decide
  refine ⟨filled keyword listed, fun c head => ?_, unbordered keyword listed⟩
  have first := letter keyword listed
  rw [Option.mem_def.mp head] at first
  simpa using first

theorem create_ne_nil : create ≠ [] := by decide

theorem create_unbordered : Unbordered create := by decide

section Headers

variable {text keyword : List Char} {head ends place : Nat}

theorem Mentions.create_stands (mentions : Mentions text keyword head ends) : StandsAt create text head := by
  obtain ⟨gap, -, stands, -⟩ := mentions
  refine List.IsPrefix.trans ?_ stands
  rw [List.append_assoc]
  exact List.prefix_append _ _

theorem Mentions.keyword_stands (mentions : Mentions text keyword head ends) :
    ∃ place, ends = place + keyword.length ∧ head + create.length ≤ place ∧ StandsAt keyword text place ∧
      ∀ between, head + create.length ≤ between → between < place → ∀ c ∈ text[between]?, isSpace c = true := by
  obtain ⟨gap, blank, stands, rfl⟩ := mentions
  refine ⟨head + create.length + gap.length, ?_, Nat.le_add_right _ _, ?_, fun between after before c found => ?_⟩
  · simp only [List.length_append]
    omega
  · obtain ⟨rest, whole⟩ := stands
    rw [StandsAt, Nat.add_assoc, ← List.drop_drop, ← whole, List.append_assoc, List.append_assoc, ← List.length_append,
      ← List.append_assoc, List.drop_left]
    exact List.prefix_append _ _
  · have inside : between - head < (create ++ gap ++ keyword).length := by
      simp only [List.length_append]
      omega
    have shown := stands.getElem? inside
    rw [Nat.add_sub_cancel' (by omega), Option.mem_def.mp found, List.append_assoc,
      List.getElem?_append_right (by omega), List.getElem?_append_left (by omega)] at shown
    exact blank c (List.mem_of_getElem? shown.symm)

/-- The last `create` in front of the kind is the one of the header. -/
theorem rfind_of_mentions (mentions : Mentions text keyword head (place + keyword.length)) :
    rfind create text place = some head := by
  obtain ⟨other, ended, after, -, blank⟩ := mentions.keyword_stands
  obtain rfl : other = place := by omega
  refine (rfind_eq_some_iff create_ne_nil).mpr ⟨after, mentions.create_stands, fun later behind inside stands => ?_⟩
  have apart := create_unbordered.apart mentions.create_stands stands behind
  have begins := stands.getElem? (show 0 < create.length by decide)
  have letter := blank later apart (Nat.lt_of_lt_of_le (Nat.lt_add_of_pos_right (by decide)) inside) 'c' begins
  exact absurd letter (by decide)

theorem mentions_of_blank (kind : IsKind keyword) (stands : StandsAt keyword text place) (found : rfind create text place = some head)
    (blank : ((text.drop (head + create.length)).take (place - (head + create.length))).all isSpace = true) :
    Mentions text keyword head (place + keyword.length) := by
  obtain ⟨inside, opens, -⟩ := (rfind_eq_some_iff create_ne_nil).mp found
  obtain ⟨rest, whole⟩ := opens
  have behind : text.drop (head + create.length) = rest := by
    rw [← List.drop_drop, ← whole, List.drop_left]
  rw [behind] at blank
  refine ⟨rest.take (place - (head + create.length)), List.all_eq_true.mp blank, ?_, ?_⟩
  · rw [StandsAt, ← whole, List.append_assoc, List.prefix_append_right_inj]
    have split : rest = rest.take (place - (head + create.length)) ++ text.drop place := by
      rw [show text.drop place = rest.drop (place - (head + create.length)) by
        rw [← behind, List.drop_drop, Nat.add_sub_cancel' inside], List.take_append_drop]
    conv_rhs => rw [split]
    exact (List.prefix_append_right_inj _).mpr stands
  · have within := stands.end_le kind.filled
    have long : place - (head + create.length) ≤ rest.length := by
      rw [← behind, List.length_drop]
      omega
    rw [List.length_append, List.length_append, List.length_take, Nat.min_eq_left long]
    omega

/-- A header of the kind has its kind at a place, and there the search finds it. -/
theorem headerFrom_spec (kind : IsKind keyword) {fuel index : Nat} (enough : text.length < index + fuel) :
    (headerFrom text keyword fuel index = none →
      ∀ head place, index ≤ place → ¬ Mentions text keyword head (place + keyword.length)) ∧
    ∀ head ends, headerFrom text keyword fuel index = some (head, ends) → Mentions text keyword head ends ∧
      ∀ other place, index ≤ place → Mentions text keyword other (place + keyword.length) → ends ≤ place + keyword.length := by
  have some_keyword := List.length_pos_of_ne_nil kind.filled
  have stands_of {other place : Nat} (mentions : Mentions text keyword other (place + keyword.length)) :
      StandsAt keyword text place := by
    obtain ⟨same, ended, -, stands, -⟩ := mentions.keyword_stands
    obtain rfl : same = place := by omega
    exact stands
  induction fuel generalizing index with
  | zero =>
    refine ⟨fun _ head place after mentions => ?_, fun head ends found => by cases found⟩
    have within := (stands_of mentions).end_le kind.filled
    omega
  | succ fuel ih =>
    rw [headerFrom]
    cases found : find keyword text index with
    | none =>
      have absent := (find_eq_none_iff kind.filled).mp found
      refine ⟨fun _ head place after mentions => absent place after (stands_of mentions), fun head ends same => ?_⟩
      cases same
    | some place =>
      obtain ⟨stands, after, first⟩ := (find_eq_some_iff kind.filled).mp found
      have later := @ih (place + keyword.length) (by omega)
      -- A header's kind from `index` on stands at this place or behind it, since it has no border.
      have behind {other next : Nat} (from_index : index ≤ next)
          (mentions : Mentions text keyword other (next + keyword.length)) :
          next = place ∨ place + keyword.length ≤ next := by
        rcases Nat.lt_trichotomy next place with before | same | more
        · exact absurd (stands_of mentions) (first next from_index before)
        · exact Or.inl same
        · exact Or.inr (kind.unbordered.apart stands (stands_of mentions) more)
      have skipped (unlike : ∀ other, ¬ Mentions text keyword other (place + keyword.length)) :
          (headerFrom text keyword fuel (place + keyword.length) = none →
            ∀ head next, index ≤ next → ¬ Mentions text keyword head (next + keyword.length)) ∧
          ∀ head ends, headerFrom text keyword fuel (place + keyword.length) = some (head, ends) →
            Mentions text keyword head ends ∧ ∀ other next, index ≤ next →
              Mentions text keyword other (next + keyword.length) → ends ≤ next + keyword.length := by
        refine ⟨fun none head next from_index mentions => ?_, fun head ends same => ?_⟩
        · rcases behind from_index mentions with rfl | more
          · exact unlike head mentions
          · exact later.1 none head next more mentions
        · refine ⟨(later.2 head ends same).1, fun other next from_index mentions => ?_⟩
          rcases behind from_index mentions with rfl | more
          · exact absurd mentions (unlike other)
          · exact (later.2 head ends same).2 other next more mentions
      dsimp only
      cases nearest : rfind create text place with
      | none =>
        refine skipped fun other mentions => ?_
        rw [rfind_of_mentions mentions] at nearest
        cases nearest
      | some head =>
        dsimp only
        by_cases blank :
            ((text.drop (head + create.length)).take (place - (head + create.length))).all isSpace = true
        · rw [if_pos blank]
          refine ⟨fun none => absurd none (Option.some_ne_none _), fun other ends same => ?_⟩
          obtain ⟨rfl, rfl⟩ := Prod.mk.inj (Option.some.inj same)
          refine ⟨mentions_of_blank kind stands nearest blank, fun other next from_index mentions => ?_⟩
          rcases behind from_index mentions with rfl | more
          · exact Nat.le_refl _
          · omega
        · rw [if_neg blank]
          refine skipped fun other mentions => blank ?_
          have same := (rfind_of_mentions mentions).symm.trans nearest
          obtain rfl := Option.some.inj same
          obtain ⟨between, ended, opens, -, blanks⟩ := mentions.keyword_stands
          obtain rfl : between = place := by omega
          rw [List.all_eq_true]
          intro c member
          obtain ⟨shift, shown⟩ := List.mem_iff_getElem?.mp member
          rw [List.getElem?_take] at shown
          split at shown
          · next inside =>
              rw [List.getElem?_drop] at shown
              exact blanks (other + create.length + shift) (by omega) (by omega) c shown
          · cases shown

/-- Of two headers of one kind the one that ends first begins first. -/
theorem Mentions.head_le (kind : IsKind keyword) {other later : Nat} (first : Mentions text keyword head ends)
    (second : Mentions text keyword other later) (before : ends ≤ later) : head ≤ other := by
  obtain ⟨place, rfl, after, stands, -⟩ := first.keyword_stands
  obtain ⟨next, rfl, behind, -, blank⟩ := second.keyword_stands
  rcases Nat.lt_or_eq_of_le (show place ≤ next by omega) with earlier | rfl
  · by_contra beyond
    obtain ⟨c, more, spelled⟩ := List.exists_cons_of_ne_nil kind.filled
    have begins := stands.getElem? (List.length_pos_of_ne_nil kind.filled)
    have letter := kind.letter c (by rw [spelled]; rfl)
    have found := blank place (by omega) earlier c (by rw [Nat.add_zero] at begins; rw [begins, spelled]; rfl)
    rw [letter] at found
    cases found
  · exact (Option.some.inj ((rfind_of_mentions first).symm.trans (rfind_of_mentions second))).le

/-- Two headers that begin together have the same blanks, and one kind begins the other. -/
theorem Mentions.together {other : List Char} {later : Nat} (kind : IsKind keyword) (kind_other : IsKind other)
    (first : Mentions text keyword head ends) (second : Mentions text other head later) :
    (∃ start, ends = start + keyword.length ∧ later = start + other.length) ∧ (keyword <+: other ∨ other <+: keyword) := by
  obtain ⟨gap, blank, stands, rfl⟩ := first
  obtain ⟨gap_other, blank_other, stands_other, rfl⟩ := second
  obtain ⟨rest, whole⟩ := stands
  obtain ⟨rest_other, whole_other⟩ := stands_other
  have spelled := whole.trans whole_other.symm
  simp only [List.append_assoc, List.append_cancel_left_eq] at spelled
  have takes {gap keyword rest : List Char} (kind : IsKind keyword) (blank : ∀ c ∈ gap, isSpace c = true) :
      (gap ++ (keyword ++ rest)).takeWhile isSpace = gap := by
    obtain ⟨c, more, rfl⟩ := List.exists_cons_of_ne_nil kind.filled
    have letter := kind.letter c rfl
    rw [List.takeWhile_append_of_pos blank, List.cons_append, List.takeWhile_cons_of_neg (by simp [letter]), List.append_nil]
  have same : gap = gap_other := by
    rw [← @takes gap keyword rest kind blank, spelled, takes kind_other blank_other]
  rw [same, List.append_cancel_left_eq] at spelled
  refine ⟨⟨head + create.length + gap.length, ?_, ?_⟩, ?_⟩
  · simp only [List.length_append]
    omega
  · simp only [List.length_append, same]
    omega
  · exact List.prefix_or_prefix_of_prefix (List.prefix_append keyword rest) (spelled ▸ List.prefix_append other rest_other)

end Headers

/-! ## The first header of any kind -/

/-- What was found among some kinds: a header that begins first, and of those that begin there the longest. -/
def Best (text : List Char) (kinds : List (List Char)) : Option Found → Prop
  | none => ∀ keyword ∈ kinds, ∀ head ends, ¬ Mentions text keyword head ends
  | some (head, ends, keyword) => keyword ∈ kinds ∧ Mentions text keyword head ends ∧
      ∀ other ∈ kinds, ∀ begins later, Mentions text other begins later → head < begins ∨ head = begins ∧ later ≤ ends

theorem Best.concat {text keyword : List Char} {kinds : List (List Char)} {best : Option Found}
    (so_far : Best text kinds best) (kind : IsKind keyword) (each : ∀ other ∈ kinds, IsKind other)
    (longer : ∀ other ∈ kinds, ¬ other <+: keyword) : Best text (kinds ++ [keyword]) (better text best keyword) := by
  obtain ⟨none_found, some_found⟩ := headerFrom_spec kind (show text.length < 0 + (text.length + 1) by omega)
  have least {head ends other later : Nat} (found : headerFrom text keyword (text.length + 1) 0 = some (head, ends))
      (mentions : Mentions text keyword other later) : head < other ∨ head = other ∧ later ≤ ends := by
    obtain ⟨here, first⟩ := some_found head ends found
    obtain ⟨place, rfl, -⟩ := mentions.keyword_stands
    have begins := here.head_le kind mentions (first other place (Nat.zero_le _) mentions)
    rcases Nat.lt_or_eq_of_le begins with before | rfl
    · exact Or.inl before
    · obtain ⟨⟨start, one, two⟩, -⟩ := here.together kind kind mentions
      exact Or.inr ⟨rfl, by omega⟩
  unfold better
  cases found : headerFrom text keyword (text.length + 1) 0 with
  | none =>
    have absent : ∀ head ends, ¬ Mentions text keyword head ends := by
      intro head ends mentions
      obtain ⟨place, rfl, -⟩ := mentions.keyword_stands
      exact none_found found head place (Nat.zero_le _) mentions
    cases best with
    | none => exact List.forall_mem_append.mpr ⟨so_far, List.forall_mem_singleton.mpr absent⟩
    | some best =>
      obtain ⟨listed, mentions, first⟩ := so_far
      refine ⟨List.mem_append_left _ listed, mentions, List.forall_mem_append.mpr ⟨first, ?_⟩⟩
      exact List.forall_mem_singleton.mpr fun begins later other => absurd other (absent begins later)
  | some pair =>
    obtain ⟨head, ends⟩ := pair
    have here := (some_found head ends found).1
    dsimp only
    cases best with
    | none =>
      refine ⟨by simp, here, List.forall_mem_append.mpr ⟨fun other listed begins later mentions => ?_, ?_⟩⟩
      · exact absurd mentions (so_far other listed begins later)
      · exact List.forall_mem_singleton.mpr fun begins later mentions => least found mentions
    | some best =>
      obtain ⟨start, stop, word⟩ := best
      obtain ⟨listed, mentions, first⟩ := so_far
      dsimp only
      by_cases before : head < start
      · rw [if_pos before]
        refine ⟨by simp, here, List.forall_mem_append.mpr ⟨fun other member begins later found_there => ?_, ?_⟩⟩
        · rcases first other member begins later found_there with after | ⟨same, -⟩
          · exact Or.inl (by omega)
          · exact Or.inl (by omega)
        · exact List.forall_mem_singleton.mpr fun begins later mentions => least found mentions
      · rw [if_neg before]
        refine ⟨List.mem_append_left _ listed, mentions, List.forall_mem_append.mpr ⟨first, ?_⟩⟩
        refine List.forall_mem_singleton.mpr fun begins later found_there => ?_
        rcases Nat.lt_or_eq_of_le (show start ≤ begins by rcases least found found_there with _ | _ <;> omega) with
          after | rfl
        · exact Or.inl after
        · obtain ⟨⟨from_here, one, two⟩, comparable⟩ := mentions.together (each word listed) kind found_there
          have shorter := (comparable.resolve_left (longer word listed)).length_le
          exact Or.inr ⟨rfl, by omega⟩

theorem best_moduleKeywords (text : List Char) : Best text moduleKeywords (moduleKeywords.foldl (better text) none) := by
  have run : ∀ kinds : List (List Char), (∀ keyword ∈ kinds, IsKind keyword) →
      kinds.Pairwise (fun first second => ¬ first <+: second) → Best text kinds (kinds.foldl (better text) none) := by
    intro kinds
    induction kinds using List.reverseRecOn with
    | nil => exact fun _ _ keyword none => absurd none List.not_mem_nil
    | append_singleton kinds keyword ih =>
      intro each apart
      obtain ⟨before, last⟩ := List.forall_mem_append.mp each
      obtain ⟨inner, -, across⟩ := List.pairwise_append.mp apart
      rw [List.foldl_concat]
      exact (ih before inner).concat (last keyword List.mem_cons_self) before
        fun other listed => across other listed keyword List.mem_cons_self
  exact run moduleKeywords (fun keyword => isKind_of_mem) (by decide)

/-! ## The text in lower case -/

theorem lowered_append (front back : List Char) : lowered (front ++ back) = lowered front ++ lowered back :=
  List.flatMap_append

theorem lowered_cons (c : Char) (text : List Char) : lowered (c :: text) = lowered [c] ++ lowered text :=
  lowered_append [c] text

theorem length_lowered {text : List Char} (undotted : Char.ofNat 0x130 ∉ text) : (lowered text).length = text.length := by
  induction text with
  | nil => rfl
  | cons c text ih =>
    obtain ⟨other, later⟩ := not_or.mp (mt List.mem_cons.mpr undotted)
    rw [lowered_cons, List.length_append, ih later, List.length_cons, Nat.add_comm]
    congr 1
    simp only [lowered, List.flatMap_singleton, if_neg (Ne.symm other)]
    split
    · rfl
    · rfl

/-- A word of ASCII is as long as it is in lower case. -/
theorem length_of_lowered {word lower : List Char} (same : lowered word = lower) (plain : Char.ofNat 0x307 ∉ lower) :
    word.length = lower.length := by
  rw [← same, length_lowered]
  intro dotted
  refine plain (same ▸ List.mem_flatMap.mpr ⟨_, dotted, ?_⟩)
  rw [if_neg (by decide), if_pos rfl]
  exact List.mem_cons_of_mem _ List.mem_cons_self

theorem lowered_of_blank {gap : List Char} (blank : ∀ c ∈ gap, isSpace c = true) : lowered gap = gap := by
  induction gap with
  | nil => rfl
  | cons c gap ih =>
    obtain ⟨first, others⟩ := List.forall_mem_cons.mp blank
    have kelvin : c ≠ Char.ofNat 0x212A := by
      rintro rfl
      exact absurd first (by decide)
    have dotted : c ≠ Char.ofNat 0x130 := by
      rintro rfl
      exact absurd first (by decide)
    rw [lowered_cons, ih others, lowered, List.flatMap_singleton, if_neg kelvin, if_neg dotted,
      Foundation.Text.toLower_of_isSpace first]
    rfl

/-! ## The rewriting -/

theorem eq_or_proc : ∀ keyword ∈ moduleKeywords, ∀ other ∈ moduleKeywords, keyword <+: other →
    keyword = other ∨ keyword = "proc".toList ∧ other = "procedure".toList := by
  decide

theorem mentions_lowered {front word gap kind rest : List Char} (opens : lowered word = create)
    (blank : ∀ c ∈ gap, isSpace c = true) (undotted : Char.ofNat 0x130 ∉ front) :
    Mentions (lowered (front ++ word ++ gap ++ kind ++ rest)) (lowered kind) front.length
      (front.length + (create ++ gap ++ lowered kind).length) := by
  refine ⟨gap, blank, ?_, rfl⟩
  rw [lowered_append, lowered_append, lowered_append, lowered_append, opens, lowered_of_blank blank, StandsAt,
    ← length_lowered undotted]
  simp only [List.append_assoc, List.drop_left]
  exact ⟨lowered rest, by simp⟩

/-- A text without a header of any kind is kept; in another the first header, its word, blanks and kind in any case, is
written anew, and what is around it is kept. -/
theorem header_rewritten (text : List Char) :
    ((∀ keyword ∈ moduleKeywords, ∀ head ends, ¬ Mentions (lowered text) keyword head ends) →
      asCreateOrAlter text = text) ∧
    ∀ front word gap kind rest, text = front ++ word ++ gap ++ kind ++ rest → lowered word = create →
      (∀ c ∈ gap, isSpace c = true) → lowered kind ∈ moduleKeywords →
      (lowered kind = "proc".toList → ¬ "edure".toList <+: lowered rest) → Char.ofNat 0x130 ∉ front →
      (∀ keyword ∈ moduleKeywords, ∀ head < front.length, ∀ ends, ¬ Mentions (lowered text) keyword head ends) →
        asCreateOrAlter text = front ++ "CREATE OR ALTER ".toList ++ headerWord (lowered kind) ++ rest := by
  have best := best_moduleKeywords (lowered text)
  unfold asCreateOrAlter
  refine ⟨fun absent => ?_, ?_⟩
  · cases found : moduleKeywords.foldl (better (lowered text)) none with
    | none => rfl
    | some header =>
        obtain ⟨head, ends, keyword⟩ := header
        rw [found] at best
        exact absurd best.2.1 (absent keyword best.1 head ends)
  · rintro front word gap kind rest rfl opens blank listed whole undotted unmentioned
    have own := @mentions_lowered front word gap kind rest opens blank undotted
    cases found : moduleKeywords.foldl (better (lowered (front ++ word ++ gap ++ kind ++ rest))) none with
    | none =>
        rw [found] at best
        exact absurd own (best _ listed _ _)
    | some header =>
        obtain ⟨head, ends, keyword⟩ := header
        rw [found] at best
        obtain ⟨member, mentions, first⟩ := best
        have place : head = front.length ∧ front.length + (create ++ gap ++ lowered kind).length ≤ ends := by
          rcases first _ listed _ _ own with before | same
          · exact absurd mentions (unmentioned keyword member head before ends)
          · exact same
        obtain ⟨rfl, longer⟩ := place
        obtain ⟨⟨start, one, two⟩, comparable⟩ := mentions.together (isKind_of_mem member) (isKind_of_mem listed) own
        have same : keyword = lowered kind := by
          rcases comparable with shorter | shorter
          · have lengths := shorter.length_le
            exact shorter.eq_of_length (by omega)
          · rcases eq_or_proc _ listed _ member shorter with same | ⟨proc, procedure⟩
            · exact same.symm
            · exfalso
              obtain ⟨place, ended, -, stands, -⟩ := mentions.keyword_stands
              have behind : (lowered (front ++ word ++ gap ++ kind ++ rest)).drop place = lowered kind ++ lowered rest := by
                have counted := length_lowered undotted
                have before : place = (lowered front ++ create ++ gap).length := by
                  rw [List.length_append, List.length_append, counted]
                  simp only [List.length_append] at two
                  omega
                rw [lowered_append, lowered_append, lowered_append, lowered_append, opens, lowered_of_blank blank, before,
                  List.append_assoc (lowered front ++ create ++ gap), List.drop_left]
              rw [StandsAt, behind, procedure, proc] at stands
              refine whole proc ((List.prefix_append_right_inj "proc".toList).mp ?_)
              exact stands
        have ended : ends = (front ++ word ++ gap ++ kind).length := by
          have sized : word.length = create.length := length_of_lowered opens (by decide)
          have kind_sized : kind.length = (lowered kind).length := by
            have plain : ∀ keyword ∈ moduleKeywords, Char.ofNat 0x307 ∉ keyword := by decide
            exact length_of_lowered rfl (plain _ listed)
          rw [same] at one
          simp only [List.length_append] at two ⊢
          omega
        have begun : (front ++ word ++ gap ++ kind ++ rest).take front.length = front := by
          simp only [List.append_assoc, List.take_left]
        dsimp only
        rw [same, ended, List.drop_left, begun]

theorem header_rewritten_commented :
    asCreateOrAlter "--view\ncreate  Proc p".toList = "--view\nCREATE OR ALTER PROCEDURE p".toList ∧
      asCreateOrAlter "create or alter view v".toList = "create or alter view v".toList := by
  have first := best_moduleKeywords (lowered "--view\ncreate  Proc p".toList)
  have found : moduleKeywords.foldl (better (lowered "--view\ncreate  Proc p".toList)) none =
      some (7, 19, "proc".toList) := by decide +kernel
  have none_first := best_moduleKeywords (lowered "create or alter view v".toList)
  have none_found : moduleKeywords.foldl (better (lowered "create or alter view v".toList)) none = none := by
    decide +kernel
  rw [found] at first
  rw [none_found] at none_first
  refine ⟨?_, (header_rewritten "create or alter view v".toList).1 none_first⟩
  have written := (header_rewritten "--view\ncreate  Proc p".toList).2 "--view\n".toList "create".toList "  ".toList
    "Proc".toList " p".toList (by decide) (by decide) (List.all_eq_true.mp (by decide)) (by decide) (by decide) (by decide)
    (fun keyword listed head before ends mentions => by
      rcases first.2.2 keyword listed head ends mentions with after | ⟨same, -⟩
      · exact absurd before (Nat.not_lt.mpr (Nat.le_of_lt after))
      · exact absurd before (Nat.not_lt.mpr (Nat.le_of_eq same)))
  rw [written]
  decide

/-- The kind is written in capitals and in full, behind one blank. -/
theorem kind_written_anew : asCreateOrAlter "create  proc p".toList = "CREATE OR ALTER PROCEDURE p".toList ∧
    ¬ ∀ front rest : List Char, asCreateOrAlter (front ++ "create".toList ++ rest) =
      front ++ "CREATE OR ALTER".toList ++ rest := by
  have written : asCreateOrAlter "create  proc p".toList = "CREATE OR ALTER PROCEDURE p".toList := by decide
  refine ⟨written, fun claimed => ?_⟩
  have kept := claimed [] "  proc p".toList
  exact absurd (written.symm.trans kept) (by decide)

end DbaBrain.Lib.ModuleHeaders
