import Mathlib

/-!
# Scanners

A scanner reads one token after another off a text, each a front of what is left
and none of them empty, with an eye on what stands before.  Its tokens spell the
text, and two scanners that read the same at every place the first one stops
read the same tokens.
-/

namespace DbaBrain.Foundation.Scan

variable {α κ : Type*}

/-- What is read at a place: the text before is given with its last character first. -/
structure Scanner (α κ : Type*) where
  read : List α → List α → κ × List α
  front : ∀ before rest, (read before rest).2 <+: rest
  moves : ∀ before rest, rest ≠ [] → (read before rest).2 ≠ []

namespace Scanner

variable (scanner : Scanner α κ)

def tokensFrom : Nat → List α → List α → List (κ × List α)
  | 0, _, _ => []
  | fuel + 1, before, rest =>
      if rest.isEmpty then []
      else
        let token := scanner.read before rest
        token :: tokensFrom fuel (token.2.reverse ++ before) (rest.drop token.2.length)

def tokens (text : List α) : List (κ × List α) := scanner.tokensFrom text.length [] text

/-- The kind each position of the text is read as. -/
def kinds (text : List α) : List κ := (scanner.tokens text).flatMap fun token => List.replicate token.2.length token.1

inductive Stops (text : List α) : List α → List α → Prop
  | start : Stops text [] text
  | next {before rest : List α} (here : Stops text before rest) (more : rest ≠ []) :
      Stops text ((scanner.read before rest).2.reverse ++ before) (rest.drop (scanner.read before rest).2.length)

variable {scanner} {text before rest : List α}

theorem length_drop_lt (scanner : Scanner α κ) (before : List α) (more : rest ≠ []) :
    (rest.drop (scanner.read before rest).2.length).length < rest.length := by
  have some_text := List.length_pos_of_ne_nil (scanner.moves before rest more)
  have some_rest := List.length_pos_of_ne_nil more
  rw [List.length_drop]
  omega

/-- The tokens spell what is left. -/
theorem flatMap_tokensFrom {fuel : Nat} (enough : rest.length ≤ fuel) :
    (scanner.tokensFrom fuel before rest).flatMap Prod.snd = rest := by
  induction fuel generalizing before rest with
  | zero =>
    rw [List.length_eq_zero_iff.mp (Nat.le_zero.mp enough)]
    rfl
  | succ fuel ih =>
    rw [tokensFrom]
    by_cases empty : rest = []
    · rw [empty]
      rfl
    · have shorter := length_drop_lt scanner before empty
      rw [if_neg (by simpa using empty), List.flatMap_cons, ih (by omega)]
      exact (List.prefix_append_drop (scanner.front before rest)).symm

theorem flatMap_tokens (scanner : Scanner α κ) (text : List α) : (scanner.tokens text).flatMap Prod.snd = text :=
  flatMap_tokensFrom le_rfl

/-- What is read and what is left are the text. -/
theorem Stops.whole (here : scanner.Stops text before rest) : before.reverse ++ rest = text := by
  induction here with
  | start => rfl
  | @next before rest _ _ ih =>
    rw [List.reverse_append, List.reverse_reverse, List.append_assoc,
      ← List.prefix_append_drop (scanner.front before rest)]
    exact ih

/-- What holds of every reading holds of the tokens. -/
theorem forall_mem_tokens (scanner : Scanner α κ) {P : κ × List α → Prop}
    (read : ∀ before rest, rest ≠ [] → P (scanner.read before rest)) (text : List α) : ∀ token ∈ scanner.tokens text, P token := by
  have run (fuel : Nat) (before rest : List α) : ∀ token ∈ scanner.tokensFrom fuel before rest, P token := by
    induction fuel generalizing before rest with
    | zero => exact fun _ met => absurd met List.not_mem_nil
    | succ fuel ih =>
      rw [tokensFrom]
      by_cases empty : rest = []
      · rw [empty]
        exact fun _ met => absurd met List.not_mem_nil
      · rw [if_neg (by simpa using empty)]
        rintro token (_ | ⟨_, later⟩)
        · exact read before rest empty
        · exact ih _ _ token later
  exact run text.length [] text

/-- What holds of every two readings one behind the other holds along the tokens. -/
theorem isChain_tokens (scanner : Scanner α κ) {R : κ × List α → κ × List α → Prop}
    (follow : ∀ before rest, rest ≠ [] → rest.drop (scanner.read before rest).2.length ≠ [] →
      R (scanner.read before rest) (scanner.read ((scanner.read before rest).2.reverse ++ before)
        (rest.drop (scanner.read before rest).2.length)))
    (text : List α) : (scanner.tokens text).IsChain R := by
  have run (fuel : Nat) (before rest : List α) : (scanner.tokensFrom fuel before rest).IsChain R := by
    induction fuel generalizing before rest with
    | zero => exact .nil
    | succ fuel ih =>
      rw [tokensFrom]
      by_cases empty : rest = []
      · rw [empty]
        exact .nil
      · rw [if_neg (by simpa using empty)]
        refine List.isChain_cons.mpr ⟨fun next first => ?_, ih _ _⟩
        cases fuel with
        | zero => cases first
        | succ fuel =>
          rw [tokensFrom] at first
          split at first
          · cases first
          · rename_i more
            obtain rfl := Option.some.inj first
            exact follow before rest empty (by simpa using more)
  exact run text.length [] text

theorem tokens_eq_of_stops {first second : Scanner α κ}
    (agree : ∀ before rest, first.Stops text before rest → rest ≠ [] →
      first.read before rest = second.read before rest) : first.tokens text = second.tokens text := by
  have run (fuel : Nat) (before rest : List α) (here : first.Stops text before rest) :
      first.tokensFrom fuel before rest = second.tokensFrom fuel before rest := by
    induction fuel generalizing before rest with
    | zero => rfl
    | succ fuel ih =>
      rw [tokensFrom, tokensFrom]
      by_cases empty : rest = []
      · rw [empty]
        rfl
      · rw [if_neg (by simpa using empty), if_neg (by simpa using empty), ← agree before rest here empty]
        exact congrArg _ (ih _ _ (.next here empty))
  exact run text.length [] text .start

end Scanner

/-! ## Positions -/

/-- Each entry once for every position of its text. -/
def spread {β : Type*} (text : β → List α) (entries : List β) : List β :=
  entries.flatMap fun entry => List.replicate (text entry).length entry

variable {β : Type*}

theorem map_spread {γ : Type*} (text : β → List α) (value : β → γ) (entries : List β) :
    (spread text entries).map value =
      entries.flatMap fun entry => List.replicate (text entry).length (value entry) := by
  rw [spread, List.map_flatMap]
  exact congrArg (fun each => entries.flatMap each) (funext fun entry => List.map_replicate)

theorem spread_map {γ : Type*} (text : γ → List α) (value : β → γ) (entries : List β) :
    spread text (entries.map value) = (spread (fun entry => text (value entry)) entries).map value := by
  rw [map_spread, spread, List.flatMap_map]

theorem mem_of_getElem?_spread {text : β → List α} {entries : List β} {place : Nat} {entry : β}
    (found : (spread text entries)[place]? = some entry) : entry ∈ entries := by
  obtain ⟨source, listed, repeated⟩ := List.mem_flatMap.mp (List.mem_of_getElem? found)
  exact (List.eq_of_mem_replicate repeated) ▸ listed

/-! ## Fronts of a text -/

/-- Up to and including the first occurrence of the needle, or all of the text. -/
def through [DecidableEq α] (needle : List α) : List α → List α
  | [] => []
  | c :: rest => if needle <+: c :: rest then needle else c :: through needle rest

theorem through_front [DecidableEq α] (needle text : List α) : through needle text <+: text := by
  induction text with
  | nil => exact List.prefix_rfl
  | cons c rest ih =>
    rw [through]
    split
    · assumption
    · exact (List.prefix_cons_inj c).mpr ih

end DbaBrain.Foundation.Scan
