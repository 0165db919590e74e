import RavBot.Lib.Text

/-!
# Decoders that read lines

A decoder is handed a stream in chunks.  It adds each chunk to a buffer, takes the complete lines from the
buffer one by one and reacts to each; what is left of the buffer waits for the next chunk.  After a line it may
also stop, and leave the rest of the buffer as it is, or throw, and nothing is handed to it any more.

When a decoder stops just after it reported the end of the stream, what it reports up to then does not
depend on how the stream is cut into chunks (`upToEnd_run`).
-/

open List

namespace RavBot.Lib

variable {σ β : Type}

/-- What a decoder does after a line. -/
inductive Flow where
  | next
  | stop
  | throws (what : String)
  deriving DecidableEq

/-- The reaction to a line: the state after it, what is reported, and what comes then. -/
structure Reaction (σ β : Type) where
  state : σ
  out : List β := []
  flow : Flow := .next

/-- What is left after a chunk, and what was reported, an exception included. -/
structure Pumped (σ β : Type) where
  buffer : List Char
  state : σ
  trace : List (Except String β)
  flow : Flow

/-- The loop over the lines of a buffer; `line` is the beginning of the first line. -/
def pump (step : σ → List Char → Reaction σ β) (line : List Char) (s : σ) :
    List Char → Pumped σ β
  | [] => ⟨line, s, [], .next⟩
  | c :: cs =>
    if c = '\n' then
      let r := step s line
      match r.flow with
      | .next =>
        let p := pump step [] r.state cs
        { p with trace := r.out.map .ok ++ p.trace }
      | .stop => ⟨cs, r.state, r.out.map .ok, .stop⟩
      | .throws what => ⟨cs, r.state, r.out.map .ok ++ [.error what], .throws what⟩
    else pump step (line ++ [c]) s cs

/-- What a decoder reports when it is handed chunks. -/
def run (step : σ → List Char → Reaction σ β) (buffer : List Char) (s : σ) :
    List (List Char) → List (Except String β)
  | [] => []
  | chunk :: chunks =>
    let p := pump step [] s (buffer ++ chunk)
    match p.flow with
    | .throws _ => p.trace
    | _ => p.trace ++ run step p.buffer p.state chunks

/-- Reports up to the first one that is an end, that one included. -/
def upToEnd (isEnd : β → Prop) [DecidablePred isEnd] :
    List (Except String β) → List (Except String β)
  | [] => []
  | .ok b :: l => if isEnd b then [.ok b] else .ok b :: upToEnd isEnd l
  | .error what :: l => .error what :: upToEnd isEnd l

/-- A decoder that stops just after it reported the end. -/
structure StopsAtEnd (step : σ → List Char → Reaction σ β) (isEnd : β → Prop) : Prop where
  next : ∀ s line, (step s line).flow = .next → ∀ b ∈ (step s line).out, ¬isEnd b
  stop : ∀ s line, (step s line).flow = .stop → ∃ b ∈ (step s line).out, isEnd b

variable {step : σ → List Char → Reaction σ β} {isEnd : β → Prop} [DecidablePred isEnd]

/-! ## Up to the end -/

theorem upToEnd_append {out : List β} (hout : ∀ b ∈ out, ¬isEnd b) (l : List (Except String β)) :
    upToEnd isEnd (out.map .ok ++ l) = out.map .ok ++ upToEnd isEnd l := by
  induction out with
  | nil => rfl
  | cons b out ih =>
    rw [forall_mem_cons] at hout
    rw [map_cons, cons_append, upToEnd, if_neg hout.1, ih hout.2, cons_append]

theorem upToEnd_append_of_mem {out : List (Except String β)} {b : β} (hmem : .ok b ∈ out)
    (hend : isEnd b) (l : List (Except String β)) :
    upToEnd isEnd (out ++ l) = upToEnd isEnd out := by
  induction out with
  | nil => cases hmem
  | cons a out ih =>
    cases a with
    | error what =>
      have hmem := (mem_cons.1 hmem).resolve_left nofun
      rw [cons_append, upToEnd, upToEnd, ih hmem]
    | ok a =>
      rw [cons_append, upToEnd, upToEnd]
      split_ifs with ha
      · rfl
      · rcases mem_cons.1 hmem with heq | hmem
        · exact absurd (Except.ok.inj heq ▸ hend) ha
        · rw [ih hmem]

/-! ## The loop over the lines -/

theorem pump_cons {c : Char} (hc : c ≠ '\n') (line : List Char) (s : σ) (cs : List Char) :
    pump step line s (c :: cs) = pump step (line ++ [c]) s cs := by
  rw [pump, if_neg hc]

variable {line cs : List Char}

theorem pump_next {s : σ} (h : (step s line).flow = .next) (cs : List Char) :
    pump step line s ('\n' :: cs) =
      { pump step [] (step s line).state cs with
        trace := (step s line).out.map .ok ++ (pump step [] (step s line).state cs).trace } := by
  rw [pump, if_pos rfl]
  simp only [h]

theorem pump_stop {s : σ} (h : (step s line).flow = .stop) (cs : List Char) :
    pump step line s ('\n' :: cs) =
      ⟨cs, (step s line).state, (step s line).out.map .ok, .stop⟩ := by
  rw [pump, if_pos rfl]
  simp only [h]

theorem pump_throws {s : σ} {what : String}
    (h : (step s line).flow = .throws what) (cs : List Char) :
    pump step line s ('\n' :: cs) =
      ⟨cs, (step s line).state, (step s line).out.map .ok ++ [.error what], .throws what⟩ := by
  rw [pump, if_pos rfl]
  simp only [h]

theorem pump_append_of_not_mem (hline : '\n' ∉ line) (first : List Char) (s : σ)
    (cs : List Char) : pump step first s (line ++ cs) = pump step (first ++ line) s cs := by
  induction line generalizing first with
  | nil => rw [nil_append, append_nil]
  | cons c line ih =>
    rw [mem_cons, not_or] at hline
    rw [cons_append, pump_cons (Ne.symm hline.1), ih hline.2, append_assoc, singleton_append]

theorem not_mem_buffer (hline : '\n' ∉ line) {s : σ}
    (h : (pump step line s cs).flow = .next) : '\n' ∉ (pump step line s cs).buffer := by
  induction cs generalizing line s with
  | nil => exact hline
  | cons c cs ih =>
    by_cases hc : c = '\n'
    · subst hc
      cases hflow : (step s line).flow with
      | next =>
        rw [pump_next hflow] at h ⊢
        exact ih not_mem_nil h
      | stop =>
        rw [pump_stop hflow] at h
        cases h
      | throws what =>
        rw [pump_throws hflow] at h
        cases h
    · rw [pump_cons hc] at h ⊢
      refine ih ?_ h
      rw [mem_append, mem_singleton, not_or]
      exact ⟨hline, Ne.symm hc⟩

theorem trace_pump_append (line : List Char) (s : σ) (cs ds : List Char) :
    (pump step line s (cs ++ ds)).trace =
      (pump step line s cs).trace ++
        (if (pump step line s cs).flow = .next then
          (pump step (pump step line s cs).buffer (pump step line s cs).state ds).trace
        else []) := by
  induction cs generalizing line s with
  | nil => rfl
  | cons c cs ih =>
    rw [cons_append]
    by_cases hc : c = '\n'
    · subst hc
      cases hflow : (step s line).flow with
      | next =>
        rw [pump_next hflow, pump_next hflow]
        dsimp only
        rw [ih, append_assoc]
      | stop =>
        rw [pump_stop hflow, pump_stop hflow, if_neg nofun, append_nil]
      | throws what =>
        rw [pump_throws hflow, pump_throws hflow, if_neg nofun, append_nil]
    · rw [pump_cons hc, pump_cons hc]
      exact ih _ _

omit [DecidablePred isEnd] in
theorem not_isEnd_of_next (hstep : StopsAtEnd step isEnd) {s : σ} (h : (pump step line s cs).flow = .next) :
    ∃ out : List β, (pump step line s cs).trace = out.map .ok ∧ ∀ b ∈ out, ¬isEnd b := by
  induction cs generalizing line s with
  | nil => exact ⟨[], rfl, by simp⟩
  | cons c cs ih =>
    by_cases hc : c = '\n'
    · subst hc
      cases hflow : (step s line).flow with
      | next =>
        rw [pump_next hflow] at h ⊢
        obtain ⟨out, hout, hnone⟩ := ih h
        refine ⟨(step s line).out ++ out, ?_, ?_⟩
        · dsimp only
          rw [hout, map_append]
        · exact forall_mem_append.2 ⟨hstep.next s line hflow, hnone⟩
      | stop =>
        rw [pump_stop hflow] at h
        cases h
      | throws what =>
        rw [pump_throws hflow] at h
        cases h
    · rw [pump_cons hc] at h ⊢
      exact ih h

omit [DecidablePred isEnd] in
theorem exists_isEnd_of_stop (hstep : StopsAtEnd step isEnd) {s : σ} (h : (pump step line s cs).flow = .stop) :
    ∃ b, .ok b ∈ (pump step line s cs).trace ∧ isEnd b := by
  induction cs generalizing line s with
  | nil => cases h
  | cons c cs ih =>
    by_cases hc : c = '\n'
    · subst hc
      cases hflow : (step s line).flow with
      | next =>
        rw [pump_next hflow] at h ⊢
        obtain ⟨b, hb, hend⟩ := ih h
        exact ⟨b, mem_append_right _ hb, hend⟩
      | stop =>
        rw [pump_stop hflow]
        obtain ⟨b, hb, hend⟩ := hstep.stop s line hflow
        exact ⟨b, mem_map_of_mem hb, hend⟩
      | throws what =>
        rw [pump_throws hflow] at h
        cases h
    · rw [pump_cons hc] at h ⊢
      exact ih h

/-! ## Chunks -/

theorem upToEnd_run (hstep : StopsAtEnd step isEnd) {buffer : List Char} (hbuffer : '\n' ∉ buffer)
    (s : σ) (chunks : List (List Char)) :
    upToEnd isEnd (run step buffer s chunks) =
      upToEnd isEnd (pump step buffer s chunks.flatten).trace := by
  induction chunks generalizing buffer s with
  | nil => rfl
  | cons chunk chunks ih =>
    have hpump : pump step [] s (buffer ++ chunk) = pump step buffer s chunk :=
      pump_append_of_not_mem hbuffer [] s chunk
    rw [run, List.flatten_cons, hpump, trace_pump_append buffer s chunk]
    cases hflow : (pump step buffer s chunk).flow with
    | next =>
      obtain ⟨out, hout, hnone⟩ := not_isEnd_of_next hstep hflow
      rw [if_pos rfl, hout, upToEnd_append hnone, upToEnd_append hnone,
        ih (not_mem_buffer hbuffer hflow)]
    | stop =>
      -- what is left of the buffer comes after the end
      obtain ⟨b, hb, hend⟩ := exists_isEnd_of_stop hstep hflow
      rw [if_neg nofun, append_nil, upToEnd_append_of_mem hb hend]
    | throws what => rw [if_neg nofun, append_nil]

/-! ## Complete lines -/

/-- What a decoder reports for lines. -/
def reactLines (step : σ → List Char → Reaction σ β) (s : σ) :
    List (List Char) → List (Except String β)
  | [] => []
  | line :: lines =>
    let r := step s line
    match r.flow with
    | .next => r.out.map .ok ++ reactLines step r.state lines
    | .stop => r.out.map .ok
    | .throws what => r.out.map .ok ++ [.error what]

theorem lines_append (hline : '\n' ∉ line) (s : List Char) :
    Text.lines (line ++ '\n' :: s) = line :: Text.lines s := by
  induction line with
  | nil => rfl
  | cons c line ih =>
    rw [mem_cons, not_or] at hline
    rw [cons_append, Text.lines, if_neg (Ne.symm hline.1), ih hline.2]

theorem trace_pump_eq (hline : '\n' ∉ line) (s : σ) {text : List Char}
    (htext : text = [] ∧ line = [] ∨ text.getLast? = some '\n') :
    (pump step line s text).trace = reactLines step s (Text.lines (line ++ text)) := by
  induction text generalizing line s with
  | nil =>
    obtain ⟨-, rfl⟩ := htext.resolve_right nofun
    rfl
  | cons c text ih =>
    have hlast : text = [] ∧ c = '\n' ∨ text.getLast? = some '\n' := by
      rcases htext with ⟨h, -⟩ | h
      · cases h
      · cases text with
        | nil => exact .inl ⟨rfl, Option.some.inj h⟩
        | cons d text => exact .inr h
    by_cases hc : c = '\n'
    · subst hc
      rw [lines_append hline, reactLines]
      cases hflow : (step s line).flow with
      | next =>
        rw [pump_next hflow]
        dsimp only
        rw [ih not_mem_nil _ (hlast.imp_left fun h => ⟨h.1, rfl⟩), nil_append]
      | stop => rw [pump_stop hflow]
      | throws what => rw [pump_throws hflow]
    · have hline' : '\n' ∉ line ++ [c] := by
        rw [mem_append, mem_singleton, not_or]
        exact ⟨hline, Ne.symm hc⟩
      rw [pump_cons hc, ih hline' s (.inr (hlast.resolve_left fun h => hc h.2)),
        append_assoc, singleton_append]

end RavBot.Lib
