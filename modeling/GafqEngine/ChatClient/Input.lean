import GafqEngine.SocketMsg.Basic

/-!
# Reading standard input

The loop of the client's `main` over `std::cin.getline`. A line that does not fit
into the buffer sets the fail bit, which ends the loop: the lines that are sent
are those before the first one that is too long (`sentLines_eq`).
-/

namespace GafqEngine

open CLib

namespace ChatClient

def newline : UInt8 := 10

def firstLine (input : Bytes) : Bytes := input.takeWhile (· ≠ newline)

/-- What `getline` stores, what it leaves of the input, and the fail bit. -/
structure Getline where
  line : Bytes
  rest : Bytes
  fail : Bool

/-- `std::cin.getline(line, n)`: it stops at a newline, which it removes, at the
end of the input, or when `n - 1` bytes are stored. The fail bit is set when
nothing is left to read and when the line goes on. -/
def getline (n : ℕ) (input : Bytes) : Getline :=
  let line := firstLine input
  if input = [] then { line := [], rest := [], fail := true }
  else if line.length ≤ n - 1 then
    { line := line, rest := input.drop (line.length + 1), fail := false }
  else { line := line.take (n - 1), rest := input.drop (n - 1), fail := true }

theorem getline_nil (n : ℕ) : (getline n []).fail = true := rfl

theorem getline_of_le {n : ℕ} {input : Bytes} (hne : input ≠ [])
    (h : (firstLine input).length ≤ n - 1) :
    getline n input =
      { line := firstLine input, rest := input.drop ((firstLine input).length + 1)
        fail := false } := by
  simp only [getline, if_neg hne, if_pos h]

theorem getline_of_gt {n : ℕ} {input : Bytes} (hne : input ≠ [])
    (h : n - 1 < (firstLine input).length) : (getline n input).fail = true := by
  simp only [getline, if_neg hne, if_neg (Nat.not_le.mpr h)]

theorem getline_rest_lt {n : ℕ} {input : Bytes} (h : ¬ (getline n input).fail = true) :
    (getline n input).rest.length < input.length := by
  have hne : input ≠ [] := fun hnil => h (hnil ▸ getline_nil n)
  have hle : (firstLine input).length ≤ n - 1 :=
    Nat.not_lt.mp fun hlt => h (getline_of_gt hne hlt)
  have hpos : 0 < input.length := List.length_pos_iff.mpr hne
  rw [getline_of_le hne hle, List.length_drop]
  omega

/-- The lines for which the body of the loop runs. -/
def sentLines (input : Bytes) : List Bytes :=
  if h : (getline (maxBodyLength + 1) input).fail = true then []
  else
    (getline (maxBodyLength + 1) input).line ::
      sentLines (getline (maxBodyLength + 1) input).rest
termination_by input.length
decreasing_by exact getline_rest_lt h

def inputLines : Bytes → List Bytes
  | [] => []
  | c :: cs =>
      if c = newline then [] :: inputLines cs
      else
        match inputLines cs with
        | [] => [[c]]
        | line :: lines => (c :: line) :: lines

def fits (line : Bytes) : Bool := line.length ≤ maxBodyLength

theorem inputLines_eq {input : Bytes} (h : input ≠ []) :
    inputLines input =
      firstLine input :: inputLines (input.drop ((firstLine input).length + 1)) := by
  induction input with
  | nil => exact absurd rfl h
  | cons c cs ih =>
      by_cases hc : c = newline
      · simp [inputLines, firstLine, hc]
      · have hfirst : firstLine (c :: cs) = c :: firstLine cs := by simp [firstLine, hc]
        cases cs with
        | nil => simp [inputLines, firstLine, hc]
        | cons d ds =>
            have htail := ih (List.cons_ne_nil d ds)
            rw [inputLines, if_neg hc, htail, hfirst]
            rfl

/-- The loop reads the lines before the first one that is too long. -/
theorem sentLines_eq (input : Bytes) :
    sentLines input = (inputLines input).takeWhile fits := by
  induction hn : input.length using Nat.strongRecOn generalizing input with
  | ind n ih =>
      by_cases hnil : input = []
      · rw [sentLines, hnil, dif_pos (getline_nil _)]
        rfl
      · rw [sentLines, inputLines_eq hnil]
        by_cases hfits : (firstLine input).length ≤ maxBodyLength
        · have hlt : (input.drop ((firstLine input).length + 1)).length < n := by
            have hpos : 0 < input.length := List.length_pos_iff.mpr hnil
            rw [List.length_drop]
            omega
          rw [getline_of_le hnil hfits, dif_neg Bool.false_ne_true, ih _ hlt _ rfl,
            List.takeWhile_cons_of_pos (by simpa [fits] using hfits)]
        · rw [dif_pos (getline_of_gt hnil (Nat.not_le.mp hfits)),
            List.takeWhile_cons_of_neg (by simpa [fits] using hfits)]

theorem nulFree_of_mem_inputLines {input line : Bytes} (h : NulFree input)
    (hline : line ∈ inputLines input) : NulFree line := by
  induction hn : input.length using Nat.strongRecOn generalizing input with
  | ind n ih =>
      by_cases hnil : input = []
      · rw [hnil] at hline
        cases hline
      · rw [inputLines_eq hnil] at hline
        rcases List.mem_cons.mp hline with rfl | hline
        · exact fun h0 => h ((List.takeWhile_sublist _).subset h0)
        · refine ih _ ?_ (fun h0 => h (List.mem_of_mem_drop h0)) hline rfl
          have hpos : 0 < input.length := List.length_pos_iff.mpr hnil
          rw [List.length_drop]
          omega

end ChatClient

end GafqEngine
