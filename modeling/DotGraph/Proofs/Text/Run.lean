namespace DotGraph

/-! A run of characters of one class ends where a character of no such class stands. -/

theorem takeWhile_append_stop {p : Char → Bool} {front back : List Char}
    (hfront : ∀ c ∈ front, p c) (hstop : ∀ c ∈ back.head?, p c = false) :
    (front ++ back).takeWhile p = front := by
  rw [List.takeWhile_append_of_pos hfront]
  cases back with
  | nil => simp
  | cons c back => simp [hstop c rfl]

theorem dropWhile_append_stop {p : Char → Bool} {front back : List Char}
    (hfront : ∀ c ∈ front, p c) (hstop : ∀ c ∈ back.head?, p c = false) :
    (front ++ back).dropWhile p = back := by
  rw [List.dropWhile_append_of_pos hfront]
  cases back with
  | nil => rfl
  | cons c back => simp [hstop c rfl]

end DotGraph
