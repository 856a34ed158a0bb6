import Skt.Http.RequestParser

/-!
# Method tokens

The request parser looks a method up with `CharsToHttpMethod`, which compares only as many
bytes as a name of the table has and does not know where the token ends. For a token that is
no method, it finds one if the token goes on behind a name, or the buffer behind the token
completes one.
-/

namespace Skt

set_option maxRecDepth 4000

namespace Http

open Lib Lib.CString

/-- `StringToHttpMethod`: `strcmp` with each name of the map. -/
def stringToHttpMethod (m : List UInt8) : HttpMethod :=
  match httpMethodMap.find? fun e => e.2 == m.takeWhile (· ≠ 0) with
  | some e => e.1
  | none => .INVALID_METHOD

/-- A byte of a method token, `upper | digit`. -/
def isMethodChar (c : UInt8) : Bool := (65 ≤ c && c ≤ 90) || (48 ≤ c && c ≤ 57)

/-- The token is the name of a method. -/
def Known (token : List UInt8) : Prop := ∃ e ∈ httpMethodMap, e.2 = token

instance (token : List UInt8) : Decidable (Known token) :=
  inferInstanceAs (Decidable (∃ e ∈ httpMethodMap, e.2 = token))

/-! ## The table -/

/-- No name of a method begins with another one. -/
theorem eq_of_prefix_name : ∀ e ∈ httpMethodMap, ∀ e' ∈ httpMethodMap, e.2 <+: e'.2 → e = e' := by
  decide

theorem ne_invalid_of_mem : ∀ e ∈ httpMethodMap, e.1 ≠ .INVALID_METHOD := by decide

theorem takeWhile_token {token : List UInt8} (h : ∀ c ∈ token, isMethodChar c = true) :
    token.takeWhile (· ≠ 0) = token := by
  refine List.takeWhile_eq_self_iff.mpr fun c hc => ?_
  have hc' := h c hc
  rw [decide_eq_true_eq]
  rintro rfl
  exact absurd hc' (by decide)

/-- A token is looked up as a whole. -/
theorem stringToHttpMethod_eq {token : List UInt8} (h : ∀ c ∈ token, isMethodChar c = true) :
    (∀ e ∈ httpMethodMap, e.2 = token → stringToHttpMethod token = e.1) ∧
      (¬Known token → stringToHttpMethod token = .INVALID_METHOD) := by
  rw [stringToHttpMethod, takeWhile_token h]
  cases hfind : httpMethodMap.find? fun e => e.2 == token with
  | none =>
      have hnone := List.find?_eq_none.mp hfind
      refine ⟨fun e he htoken => ?_, fun _ => rfl⟩
      exact absurd (beq_iff_eq.mpr htoken) (hnone e he)
  | some e' =>
      have hmem := List.mem_of_find?_eq_some hfind
      have htoken' : e'.2 = token := by simpa using List.find?_some hfind
      refine ⟨fun e he htoken => ?_, fun hunknown => absurd ⟨e', hmem, htoken'⟩ hunknown⟩
      show e'.1 = e.1
      rw [eq_of_prefix_name e' hmem e he (by rw [htoken', htoken])]

/-- In a buffer the first name is taken that it begins with. -/
theorem charsToHttpMethod_eq (buffer : List UInt8) :
    (∀ e ∈ httpMethodMap, e.2 <+: buffer → charsToHttpMethod buffer = e.1) ∧
      ((∀ e ∈ httpMethodMap, ¬e.2 <+: buffer) → charsToHttpMethod buffer = .INVALID_METHOD) := by
  rw [charsToHttpMethod]
  cases hfind : httpMethodMap.find? fun e => startsWith e.2 buffer with
  | none =>
      have hnone := List.find?_eq_none.mp hfind
      refine ⟨fun e he hprefix => ?_, fun _ => rfl⟩
      exact absurd (List.isPrefixOf_iff_prefix.mpr hprefix) (hnone e he)
  | some e' =>
      have hmem := List.mem_of_find?_eq_some hfind
      have hstarts := List.find?_some hfind
      have hprefix' : e'.2 <+: buffer := List.isPrefixOf_iff_prefix.mp hstarts
      refine ⟨fun e he hprefix => ?_, fun hnone => absurd hprefix' (hnone e' hmem)⟩
      show e'.1 = e.1
      -- One of two beginnings of the buffer begins with the other.
      rcases Nat.le_total e'.2.length e.2.length with hle | hle
      · rw [eq_of_prefix_name e' hmem e he (List.prefix_of_prefix_length_le hprefix' hprefix hle)]
      · rw [eq_of_prefix_name e he e' hmem (List.prefix_of_prefix_length_le hprefix hprefix' hle)]

/-! ## Tokens in a buffer -/

theorem charsToHttpMethod_iff {token : List UInt8} (h : ∀ c ∈ token, isMethodChar c = true)
    (rest : List UInt8) :
    charsToHttpMethod (token ++ rest) = stringToHttpMethod token ↔
      Known token ∨ ∀ e ∈ httpMethodMap, ¬e.2 <+: token ++ rest := by
  obtain ⟨hknown, hunknown⟩ := stringToHttpMethod_eq h
  obtain ⟨hfound, hnone⟩ := charsToHttpMethod_eq (token ++ rest)
  constructor
  · intro heq
    by_contra hneither
    rw [not_or] at hneither
    push Not at hneither
    obtain ⟨hnot, e, he, hprefix⟩ := hneither
    rw [hfound e he hprefix, hunknown hnot] at heq
    exact ne_invalid_of_mem e he heq
  · rintro (⟨e, he, rfl⟩ | hno)
    · rw [hfound e he (List.prefix_append _ _), hknown e he rfl]
    · rw [hnone hno, hunknown]
      rintro ⟨e, he, rfl⟩
      exact hno e he (List.prefix_append _ _)

open RequestState in
/-- **Methods.** For a token and the bytes behind it, `on_request_method` does what the token
says just if the token is a method, or it and what follows do not begin with one. -/
theorem onRequestMethod_iff {token : List UInt8} (h : ∀ c ∈ token, isMethodChar c = true)
    (rest : List UInt8) :
    ((∀ s : RequestState, onRequestMethod (token ++ rest) s =
        if stringToHttpMethod token = .INVALID_METHOD then { s with error := 1000 }
        else { s with data.method := stringToHttpMethod token }) ↔
      Known token ∨ ∀ e ∈ httpMethodMap, ¬e.2 <+: token ++ rest) ∧
    (charsToHttpMethod (token ++ rest) = stringToHttpMethod token ↔
      Known token ∨ ∀ e ∈ httpMethodMap, ¬e.2 <+: token ++ rest) := by
  refine ⟨?_, charsToHttpMethod_iff h rest⟩
  rw [← charsToHttpMethod_iff h rest]
  constructor
  · intro hall
    -- A state without an error tells the two outcomes apart.
    have hone := hall ⟨0, false, false, .new, 0⟩
    rw [onRequestMethod] at hone
    dsimp only at hone
    by_cases hchars : charsToHttpMethod (token ++ rest) = .INVALID_METHOD
    · by_cases hstring : stringToHttpMethod token = .INVALID_METHOD
      · rw [hchars, hstring]
      · rw [if_pos hchars, if_neg hstring] at hone
        have herror : 1000 = 0 := congrArg RequestState.error hone
        cases herror
    · by_cases hstring : stringToHttpMethod token = .INVALID_METHOD
      · rw [if_neg hchars, if_pos hstring] at hone
        have herror : 0 = 1000 := congrArg RequestState.error hone
        cases herror
      · rw [if_neg hchars, if_neg hstring] at hone
        exact congrArg (fun s : RequestState => s.data.method) hone
  · intro heq s
    rw [onRequestMethod, heq]

theorem onRequestMethod_iff_get :
    charsToHttpMethod (bytes "GET" ++ bytes " / HTTP/1.1") = stringToHttpMethod (bytes "GET") :=
  (onRequestMethod_iff (by decide) _).2.mpr (Or.inl (by decide))

/-- `GETX` is taken for `GET`. -/
theorem onRequestMethod_getX :
    charsToHttpMethod (bytes "GETX" ++ bytes " / HTTP/1.1") = .GET ∧
      stringToHttpMethod (bytes "GETX") = .INVALID_METHOD ∧
      (RequestState.onRequestMethod (bytes "GETX" ++ bytes " / HTTP/1.1")
        ⟨0, false, false, .new, 0⟩).error = 0 := by
  decide

end Http

end Skt
