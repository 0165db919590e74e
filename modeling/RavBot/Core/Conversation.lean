import RavBot.Core.ToolPairing.Sanitize

/-!
# What the user says in a request

A request is reworked before it is sent, in several passes.  Apart from the trimming, all of them
leave what the user says: it may be joined to what was said before, but it does not go away, and
what was said last comes last (`Covers`).  None of them adds a system message, apart from the hint,
or removes the first one (`Reworks`).
-/

open List

namespace RavBot.Core

open RavBot.Lib TurnValidator

def Message.spoken (msg : Message) : List ContentBlock :=
  if msg.role = "user" then msg.content.filter (!·.isToolResult) else []

/-- What the user says in messages, without the messages in which the user says nothing. -/
def said (messages : List Message) : List (List ContentBlock) :=
  (messages.map Message.spoken).filter (!·.isEmpty)

def EndsSpoken (messages : List Message) : Prop :=
  ∃ last ∈ messages.getLast?, hasNonToolResultBlocks last

/-- The messages are reworked: a system message at the start stays there, no system messages come up,
what the user says is still there, and the user still has the last word. -/
structure Reworks (messages messages' : List Message) : Prop where
  head : ∀ first ∈ messages.head?, first.isSystem → first.content ≠ [] →
    messages'.head? = some first
  systems : (messages'.filter (·.isSystem)).Sublist (messages.filter (·.isSystem))
  said : Covers (said messages) (said messages')
  ends : EndsSpoken messages → EndsSpoken messages'

/-! ## Messages in which the user says something -/

variable {msg : Message}

theorem Message.spoken_of_ne (hrole : msg.role ≠ "user") : msg.spoken = [] :=
  if_neg hrole

theorem spoken_ne_nil : msg.spoken ≠ [] ↔ hasNonToolResultBlocks msg := by
  rw [Message.spoken, hasNonToolResultBlocks]
  by_cases hrole : msg.role = "user" <;> simp [hrole]

@[simp] theorem said_nil : said [] = [] := rfl

theorem said_cons (msg : Message) (messages : List Message) :
    said (msg :: messages) = (if msg.spoken = [] then [] else [msg.spoken]) ++ said messages := by
  rw [said, said, map_cons, filter_cons]
  by_cases h : msg.spoken = [] <;> simp [h]

theorem said_cons_of_eq_nil (h : msg.spoken = []) (messages : List Message) :
    said (msg :: messages) = said messages := by
  rw [said_cons, if_pos h, nil_append]

theorem said_append (messages messages' : List Message) :
    said (messages ++ messages') = said messages ++ said messages' := by
  rw [said, said, said, map_append, filter_append]

theorem spoken_of_isEmpty (h : msg.content.isEmpty) : msg.spoken = [] := by
  rw [Message.spoken, List.isEmpty_iff.1 h]
  exact ite_self _

theorem said_unlessEmpty_append (msg : Message) (messages : List Message) :
    said (unlessEmpty msg ++ messages) = said (msg :: messages) := by
  rw [unlessEmpty]
  split_ifs with hempty
  · rw [said_cons_of_eq_nil (spoken_of_isEmpty hempty), nil_append]
  · rfl

/-! ## The last word -/

theorem endsSpoken_append {messages : List Message} (before : List Message) (h : messages ≠ []) :
    EndsSpoken (before ++ messages) ↔ EndsSpoken messages := by
  rw [EndsSpoken, EndsSpoken, getLast?_append_of_ne_nil _ h]

theorem endsSpoken_singleton : EndsSpoken [msg] ↔ hasNonToolResultBlocks msg := by
  simp [EndsSpoken]

theorem EndsSpoken.ne_nil {messages : List Message} (h : EndsSpoken messages) : messages ≠ [] := by
  rintro rfl
  obtain ⟨last, hlast, -⟩ := h
  cases hlast

/-! ## Passes that leave what is said -/

theorem Reworks.refl (messages : List Message) : Reworks messages messages :=
  ⟨fun _ h _ _ => h, List.Sublist.refl _, .refl _, id⟩

theorem Reworks.trans {messages messages' messages'' : List Message}
    (h : Reworks messages messages') (h' : Reworks messages' messages'') :
    Reworks messages messages'' :=
  ⟨fun first hfirst hsystem hne => h'.head first (h.head first hfirst hsystem hne) hsystem hne,
    h'.systems.trans h.systems, h.said.trans h'.said, h'.ends ∘ h.ends⟩

/-- The system messages and what the user says stay the same, and so does the last word. -/
structure Same (messages messages' : List Message) : Prop where
  systems : messages'.filter (·.isSystem) = messages.filter (·.isSystem)
  said : said messages' = said messages
  nil : messages = [] → messages' = []
  ends : EndsSpoken messages → EndsSpoken messages'

theorem Same.refl (messages : List Message) : Same messages messages := ⟨rfl, rfl, id, id⟩

theorem Same.ends_append {messages messages' : List Message}
    (h : Same messages messages') (before : List Message)
    (hbefore : hasNonToolResultBlocks msg → EndsSpoken before) (hends : EndsSpoken (msg :: messages)) :
    EndsSpoken (before ++ messages') := by
  cases messages with
  | nil =>
    rw [h.nil rfl, append_nil]
    exact hbefore (endsSpoken_singleton.1 hends)
  | cons next messages =>
    have hrest := h.ends ((endsSpoken_append [msg] (cons_ne_nil _ _)).1 hends)
    exact (endsSpoken_append before hrest.ne_nil).2 hrest

variable {msg' : Message}

theorem Same.cons {messages messages' : List Message}
    (h : Same messages messages') (hsystem : msg'.isSystem = msg.isSystem)
    (hsame : msg.isSystem → msg' = msg) (hspoken : msg'.spoken = msg.spoken) :
    Same (msg :: messages) (msg' :: messages') := by
  refine ⟨?_, ?_, nofun, fun hends => h.ends_append [msg'] (fun hmsg => ?_) hends⟩
  · rw [filter_cons, filter_cons, hsystem, h.systems]
    split
    case isTrue hmsg => rw [hsame hmsg]
    case isFalse => rfl
  · rw [said_cons, said_cons, hspoken, h.said]
  · rw [← spoken_ne_nil, ← hspoken, spoken_ne_nil] at hmsg
    exact endsSpoken_singleton.2 hmsg

theorem Same.user {messages messages' : List Message}
    (h : Same messages messages') (hrole : msg.role = "user") (hrole' : msg'.role = "user")
    (hspoken : msg'.spoken = msg.spoken) :
    Same (msg :: messages) (unlessEmpty msg' ++ messages') := by
  refine ⟨?_, ?_, nofun, fun hends => h.ends_append _ (fun hmsg => ?_) hends⟩
  · have hnot {m : Message} (hm : m.role = "user") : ¬ m.isSystem := by
      rw [Message.isSystem, hm]
      decide
    rw [filter_cons_of_neg (hnot hrole), filter_append, unlessEmpty, h.systems]
    split
    · rfl
    · rw [filter_cons_of_neg (hnot hrole')]
      rfl
  · rw [said_unlessEmpty_append, said_cons, said_cons, hspoken, h.said]
  · rw [← spoken_ne_nil, ← hspoken] at hmsg
    rw [unlessEmpty, if_neg fun hempty => hmsg (spoken_of_isEmpty hempty)]
    exact endsSpoken_singleton.2 (spoken_ne_nil.1 hmsg)

theorem spoken_filter (role : String) (content : List ContentBlock) {p : ContentBlock → Bool}
    (hp : ∀ b, ¬ b.isToolResult → p b) :
    Message.spoken { role, content := content.filter p } = Message.spoken { role, content } := by
  rw [Message.spoken, Message.spoken, filter_filter]
  congr 1
  refine filter_congr fun b _ => ?_
  by_cases hresult : b.isToolResult
  · rw [hresult]
    rfl
  · rw [hp b hresult, Bool.and_true]

theorem spoken_eq (hrole : msg'.role = msg.role)
    (hcontent : msg.role = "user" → msg'.content = msg.content) : msg'.spoken = msg.spoken := by
  rw [Message.spoken, Message.spoken, hrole]
  by_cases h : msg.role = "user"
  · rw [hcontent h]
  · rw [if_neg h, if_neg h]

theorem Same.assistant {messages messages' : List Message}
    (h : Same messages messages') (hrole : msg.role = "assistant") (hrole' : msg'.role = msg.role) :
    Same (msg :: messages) (msg' :: messages') := by
  have hnot : ¬ msg.isSystem := by
    rw [Message.isSystem, hrole]
    decide
  refine h.cons (by rw [Message.isSystem, Message.isSystem, hrole']) (fun h => absurd h hnot) ?_
  refine spoken_eq hrole' fun huser => ?_
  rw [hrole] at huser
  exact absurd huser (by decide)

theorem Same.same {messages messages' : List Message} (h : Same messages messages')
    (msg : Message) : Same (msg :: messages) (msg :: messages') :=
  h.cons rfl (fun _ => rfl) rfl

theorem Same.drop {messages messages' : List Message}
    (h : Same messages messages') (hsystem : ¬ msg.isSystem) (hspoken : msg.spoken = []) :
    Same (msg :: messages) messages' :=
  ⟨by rw [filter_cons_of_neg hsystem, h.systems],
    by rw [said_cons_of_eq_nil hspoken, h.said], nofun,
    fun hends => h.ends_append [] (fun hmsg => absurd hspoken (spoken_ne_nil.2 hmsg)) hends⟩

theorem same_repair (messages : List Message) :
    Same messages (repairAnthropicToolPairing messages) := by
  fun_induction repairAnthropicToolPairing messages with
  | case1 => exact .refl []
  | case2 msg rest hassistant huser ih =>
    refine ih.user huser huser (spoken_filter msg.role msg.content ?_)
    intro b hb
    simpa using hb
  | case3 msg rest hassistant huser ih => exact ih.same msg
  | case4 msg rest hassistant ids hids ih => exact ih.same msg
  | case5 msg hassistant ids hids next rest huser ih =>
    refine Same.assistant (ih.user huser huser (spoken_filter next.role next.content ?_))
      (not_not.1 hassistant) (withCallsOf_role _ _)
    intro b hb
    simp [hb]
  | case6 msg hassistant ids hids next rest huser ih =>
    exact ih.assistant (not_not.1 hassistant) (withCallsOf_role _ _)
  | case7 msg hassistant ids hids =>
    exact Same.assistant (.refl []) (not_not.1 hassistant) (withCallsOf_role _ _)

theorem same_collapse (messages : List Message) :
    Same messages (collapseCompletedAnthropicToolTurns messages) := by
  fun_induction collapseCompletedAnthropicToolTurns messages with
  | case1 call results answer next rest hcollapse ih =>
    obtain ⟨hcall, -, hresults, -⟩ := canCollapse_iff.1 hcollapse
    have hrole : results.role = "user" := (hasOnlyToolResultBlocks_iff.1 hresults).1
    refine ((ih.same answer).drop ?_ ?_).drop ?_ ?_
    · rw [Message.isSystem, hrole]
      decide
    · rw [Message.spoken, if_pos hrole, filter_eq_nil_iff]
      intro b hb
      simpa using (hasOnlyToolResultBlocks_iff.1 hresults).2.2 b hb
    · rw [Message.isSystem, hcall]
      decide
    · refine Message.spoken_of_ne ?_
      rw [hcall]
      decide
  | case2 call results answer next rest hcollapse ih => exact ih.same call
  | case3 msg rest hrest ih => exact ih.same msg
  | case4 => exact .refl []

theorem same_strip (messages : List Message) : Same messages (stripDanglingToolUses messages) := by
  fun_induction stripDanglingToolUses messages with
  | case1 => exact .refl []
  | case2 msg rest ih =>
    cases rest with
    | nil => exact ih.same msg
    | cons next rest =>
      dsimp only
      split
      case isTrue hassistant => exact ih.assistant hassistant.1 (stripBefore_role _ _)
      case isFalse => exact ih.same msg

/-! ## Passes that join messages -/

theorem said_kept (messages : List Message) : said (kept messages) = said messages := by
  induction messages with
  | nil => rfl
  | cons msg messages ih =>
    rw [kept, filter_cons]
    split
    case isTrue => rw [said_cons, said_cons, ← ih, kept]
    case isFalse hempty =>
      rw [said_cons_of_eq_nil (spoken_of_isEmpty (by simpa using hempty)), ← ih, kept]

/-- Joining leaves what the user says in two messages, and joins no system messages. -/
structure JoinsSpoken (join : Message → Message → Option Message) : Prop where
  spoken : ∀ {a b c}, join a b = some c → c.spoken = a.spoken ++ b.spoken
  system : ∀ {a b c}, join a b = some c → ¬ a.isSystem ∧ ¬ b.isSystem ∧ ¬ c.isSystem

variable {join : Message → Message → Option Message}

theorem JoinsSpoken.covers (hjoin : JoinsSpoken join)
    {a b c : Message} (h : join a b = some c) (messages : List Message) :
    Covers (said (a :: b :: messages)) (said (c :: messages)) := by
  rw [said_cons, said_cons, said_cons, ← append_assoc]
  refine Covers.append_right ?_ (said messages)
  rw [hjoin.spoken h]
  by_cases ha : a.spoken = []
  · rw [ha, if_pos rfl, nil_append, nil_append]
    exact .refl _
  · rw [if_neg ha, if_neg (append_ne_nil_of_left_ne_nil ha _)]
    by_cases hb : b.spoken = []
    · rw [hb, if_pos rfl, append_nil, append_nil]
      exact .refl _
    · rw [if_neg hb]
      refine ⟨fun x hx => ⟨_, mem_singleton_self _, ?_⟩, fun x hx => ⟨_, rfl, ?_⟩, nofun⟩
      · rcases mem_cons.1 hx with rfl | hx
        · exact subset_append_left _ _
        · rw [mem_singleton.1 hx]
          exact subset_append_right _ _
      · cases hx
        exact subset_append_right _ _

theorem covers_mergeInto (hjoin : JoinsSpoken join)
    (last : Message) (messages : List Message) :
    Covers (said (last :: messages)) (said (mergeInto join last messages)) ∧
      (mergeInto join last messages).filter (·.isSystem) =
        (last :: messages).filter (·.isSystem) ∧
      (EndsSpoken (last :: messages) → EndsSpoken (mergeInto join last messages)) := by
  induction messages generalizing last with
  | nil => exact ⟨.refl _, rfl, id⟩
  | cons msg messages ih =>
    rw [mergeInto]
    cases hjoined : join last msg with
    | none =>
      obtain ⟨hcovers, hsystems, hends⟩ := ih msg
      refine ⟨?_, ?_, fun h => ?_⟩
      · rw [said_cons last (msg :: messages), said_cons last (mergeInto join msg messages)]
        exact hcovers.append_left _
      · rw [filter_cons, hsystems, filter_cons (x := last)]
      · have hrest := hends ((endsSpoken_append [last] (cons_ne_nil _ _)).1 h)
        exact (endsSpoken_append [last] hrest.ne_nil).2 hrest
    | some joined =>
      obtain ⟨hcovers, hsystems, hends⟩ := ih joined
      obtain ⟨hlast, hmsg, hsystem⟩ := hjoin.system hjoined
      refine ⟨(hjoin.covers hjoined messages).trans hcovers, ?_, fun h => hends ?_⟩
      · rw [hsystems, filter_cons_of_neg hlast, filter_cons_of_neg hmsg, filter_cons_of_neg hsystem]
      · have hrest := (endsSpoken_append [last] (cons_ne_nil _ _)).1 h
        cases messages with
        | nil =>
          rw [endsSpoken_singleton, ← spoken_ne_nil] at hrest ⊢
          rw [hjoin.spoken hjoined]
          exact append_ne_nil_of_right_ne_nil _ hrest
        | cons next messages =>
          rw [← singleton_append, endsSpoken_append _ (cons_ne_nil _ _)] at hrest ⊢
          exact hrest

theorem joinsSpoken_joinUsers : JoinsSpoken joinUsers := by
  have hjoin {a b c : Message} (h : joinUsers a b = some c) :
      a.role = "user" ∧ b.role = "user" ∧ c.role = "user" ∧
        c.content = a.content ++ b.content := by
    rw [joinUsers, Option.ite_none_right_eq_some, Option.some.injEq] at h
    obtain ⟨⟨hb, ha⟩, rfl⟩ := h
    exact ⟨ha, hb, ha, rfl⟩
  refine ⟨fun h => ?_, fun h => ?_⟩
  · obtain ⟨ha, hb, hc, hcontent⟩ := hjoin h
    rw [Message.spoken, Message.spoken, Message.spoken, if_pos ha, if_pos hb, if_pos hc, hcontent,
      filter_append]
  · obtain ⟨ha, hb, hc, -⟩ := hjoin h
    rw [Message.isSystem, Message.isSystem, Message.isSystem, ha, hb, hc]
    decide

theorem joinsSpoken_joinRole {role : String} (hrole : role ≠ "system") :
    JoinsSpoken (joinRole role) := by
  have hjoin {a b c : Message} (h : joinRole role a b = some c) :
      a.role = role ∧ b.role = role ∧ c.role = role ∧ c.content = a.content ++ b.content := by
    rw [joinRole, Option.ite_none_right_eq_some, Option.some.injEq] at h
    obtain ⟨⟨ha, hb⟩, rfl⟩ := h
    exact ⟨ha, hb, ha, rfl⟩
  refine ⟨fun h => ?_, fun h => ?_⟩
  · obtain ⟨ha, hb, hc, hcontent⟩ := hjoin h
    rw [Message.spoken, Message.spoken, Message.spoken, ha, hb, hc, hcontent]
    split
    · exact filter_append _ _
    · rfl
  · obtain ⟨ha, hb, hc, -⟩ := hjoin h
    rw [Message.isSystem, Message.isSystem, Message.isSystem, ha, hb, hc]
    simp [hrole]

/-! ## The passes -/

theorem Same.reworks {messages messages' : List Message} (h : Same messages messages')
    (hhead : ∀ first ∈ messages.head?, first.isSystem → messages'.head? = some first) :
    Reworks messages messages' where
  head first hfirst hsystem _ := hhead first hfirst hsystem
  systems := by rw [h.systems]
  said := by
    rw [h.said]
    exact .refl _
  ends := h.ends

theorem reworks_repair (messages : List Message) :
    Reworks messages (repairAnthropicToolPairing messages) := by
  refine (same_repair messages).reworks fun first hfirst hsystem => ?_
  cases messages with
  | nil => cases hfirst
  | cons msg messages =>
    cases hfirst
    obtain ⟨huser, hassistant⟩ := Message.isSystem_role hsystem
    rw [repair_cons_plain huser fun h => hassistant h.1]
    rfl

theorem reworks_collapse (messages : List Message) :
    Reworks messages (collapseCompletedAnthropicToolTurns messages) := by
  refine (same_collapse messages).reworks fun first hfirst hsystem => ?_
  cases messages with
  | nil => cases hfirst
  | cons msg messages =>
    cases hfirst
    rw [collapse_cons fun _ _ _ _ _ h =>
      (Message.isSystem_role hsystem).2 (canCollapse_iff.1 h).1]
    rfl

theorem reworks_strip (messages : List Message) :
    Reworks messages (stripDanglingToolUses messages) := by
  refine (same_strip messages).reworks fun first hfirst hsystem => ?_
  cases messages with
  | nil => cases hfirst
  | cons msg messages =>
    cases hfirst
    rw [strip_cons fun _ _ h => (Message.isSystem_role hsystem).2 h.1]
    rfl

theorem reworks_foldl_mergeStep
    (hjoin : JoinsSpoken join) (messages : List Message) :
    Reworks messages (messages.foldl (mergeStep join) []) := by
  cases messages with
  | nil => exact .refl []
  | cons msg messages =>
    obtain ⟨hcovers, hsystems, hends⟩ := covers_mergeInto hjoin msg messages
    rw [foldl_mergeStep_cons]
    refine ⟨fun first hfirst hsystem _ => ?_, by rw [hsystems], hcovers, hends⟩
    cases hfirst
    rw [mergeInto_eq_cons fun a _ => ?_]
    · rfl
    · cases hjoined : join msg a with
      | none => rfl
      | some joined => exact absurd hsystem (hjoin.system hjoined).1

theorem reworks_merge (messages : List Message) :
    Reworks messages (mergeConsecutiveUserMessages messages) := by
  rw [mergeConsecutiveUserMessages, mergeUser_eq]
  exact reworks_foldl_mergeStep joinsSpoken_joinUsers messages

theorem reworks_kept (messages : List Message) : Reworks messages (kept messages) := by
  refine ⟨fun first hfirst _ hne => ?_, filter_sublist.filter _, ?_, ?_⟩
  · cases messages with
    | nil => cases hfirst
    | cons msg messages =>
      cases hfirst
      rw [kept, filter_cons_of_pos (by simpa using hne)]
      rfl
  · rw [said_kept]
    exact .refl _
  · rintro ⟨last, hlast, hspoken⟩
    obtain ⟨before, rfl⟩ := getLast?_eq_some_iff.1 hlast
    have hne : ¬ last.content.isEmpty := fun h => spoken_ne_nil.2 hspoken (spoken_of_isEmpty h)
    refine ⟨last, ?_, hspoken⟩
    rw [kept, filter_append, filter_cons_of_pos (by simpa using hne), filter_nil]
    exact getLast?_concat ..

theorem reworks_mergeConsecutiveRole {role : String} (hrole : role ≠ "system")
    (messages : List Message) : Reworks messages (mergeConsecutiveRole messages role) := by
  rw [mergeConsecutiveRole_eq]
  exact (reworks_kept messages).trans
    (reworks_foldl_mergeStep (joinsSpoken_joinRole hrole) (kept messages))

theorem reworks_builtin (name : String) (messages : List Message) :
    Reworks messages (TurnValidator.builtin.validateAndFix messages name) := by
  have hgoogle : Reworks messages (fixGoogleTurns messages) :=
    reworks_mergeConsecutiveRole (by decide) messages
  have hanthropic : Reworks messages (fixAnthropicTurns messages) :=
    (reworks_strip messages).trans (reworks_mergeConsecutiveRole (by decide) _)
  rw [validateAndFix, builtin]
  dsimp only
  by_cases hgemini : name = "gemini"
  · rw [hgemini, AList.lookup_insert]
    exact hgoogle
  · rw [AList.lookup_insert_ne hgemini]
    by_cases hname : name = "google"
    · rw [hname, AList.lookup_insert]
      exact hgoogle
    · rw [AList.lookup_insert_ne hname]
      by_cases hname' : name = "anthropic"
      · rw [hname', AList.lookup_insert]
        exact hanthropic
      · rw [AList.lookup_insert_ne hname', AList.lookup_empty]
        exact .refl messages

/-! ## Trimming -/

theorem lastTurn_eq_some {messages turn : List Message} (h : lastTurn messages = some turn) :
    turn <:+ messages ∧ ∃ first ∈ turn.head?, hasNonToolResultBlocks first := by
  induction messages with
  | nil => cases h
  | cons msg messages ih =>
    rw [lastTurn] at h
    cases hrest : lastTurn messages with
    | some turn' =>
      rw [hrest] at h
      cases h
      obtain ⟨hsuffix, hfirst⟩ := ih hrest
      exact ⟨hsuffix.trans (suffix_cons msg messages), hfirst⟩
    | none =>
      rw [hrest] at h
      dsimp only at h
      split at h
      case isTrue hspoken =>
        cases h
        exact ⟨suffix_refl _, msg, rfl, hspoken⟩
      case isFalse => cases h

theorem getLast?_said_append {messages : List Message} (before : List Message)
    (h : said messages ≠ []) :
    (said (before ++ messages)).getLast? = (said messages).getLast? := by
  rw [said_append, getLast?_append_of_ne_nil _ h]

theorem trim_spec (messages : List Message) :
    let messages' := trimAnthropicReplayToCurrentTurn messages
    (∀ first ∈ messages.head?, first.isSystem → messages'.head? = some first) ∧
      messages'.Sublist messages ∧ (said messages').getLast? = (said messages).getLast? ∧
      (EndsSpoken messages → messages' = messages) := by
  rw [trimAnthropicReplayToCurrentTurn]
  have hrefl : (∀ first ∈ messages.head?, first.isSystem → messages.head? = some first) ∧
      messages.Sublist messages ∧ (said messages).getLast? = (said messages).getLast? ∧
      (EndsSpoken messages → messages = messages) :=
    ⟨fun _ h _ => h, List.Sublist.refl _, rfl, fun _ => rfl⟩
  cases hlast : messages.getLast? with
  | none => exact hrefl
  | some last =>
    dsimp only
    split
    case isFalse => exact hrefl
    case isTrue hresults =>
      cases hturn : lastTurn (messages.dropWhile (·.isSystem)) with
      | none => exact hrefl
      | some turn =>
        obtain ⟨⟨before, hbefore⟩, first, hfirst, hspoken⟩ := lastTurn_eq_some hturn
        have hsplit : messages = messages.takeWhile (·.isSystem) ++ (before ++ turn) := by
          rw [hbefore, takeWhile_append_dropWhile]
        refine ⟨fun m hm hsystem => ?_, ?_, ?_, ?_⟩
        · cases messages with
          | nil => cases hm
          | cons m' messages =>
            cases hm
            rw [takeWhile_cons_of_pos hsystem]
            rfl
        · have hsublist : turn.Sublist (before ++ turn) := sublist_append_right _ _
          have hall := hsublist.append_left (messages.takeWhile (·.isSystem))
          rw [← hsplit] at hall
          exact hall
        · have hne : said turn ≠ [] := by
            cases turn with
            | nil => cases hfirst
            | cons m turn =>
              cases hfirst
              rw [said_cons, if_neg (spoken_ne_nil.2 hspoken)]
              exact cons_ne_nil _ _
          rw [getLast?_said_append _ hne]
          conv_rhs => rw [hsplit]
          rw [← append_assoc, getLast?_said_append _ hne]
        · rintro ⟨last', hlast', hspoken'⟩
          rw [hlast] at hlast'
          cases hlast'
          obtain ⟨hrole, -, hall⟩ := hasOnlyToolResultBlocks_iff.1 hresults
          rw [hasNonToolResultBlocks, Bool.and_eq_true, any_eq_true] at hspoken'
          obtain ⟨-, b, hb, hnot⟩ := hspoken'
          rw [hall b hb] at hnot
          cases hnot

theorem hint_spec (messages : List Message) (names : List String) :
    let messages' := maybeAddWebSearchReplayInstruction messages names
    (∀ first ∈ messages.head?, first.isSystem → messages'.head? = some first) ∧
      (∀ p : Message → Bool, p (.ofText "system" replayHint) = false →
        messages'.countP p = messages.countP p) ∧
      said messages' = said messages ∧ (EndsSpoken messages → EndsSpoken messages') := by
  have hrefl : (∀ first ∈ messages.head?, first.isSystem → messages.head? = some first) ∧
      (∀ p : Message → Bool, p (.ofText "system" replayHint) = false →
        messages.countP p = messages.countP p) ∧
      said messages = said messages ∧ (EndsSpoken messages → EndsSpoken messages) :=
    ⟨fun _ h _ => h, fun _ _ => rfl, rfl, id⟩
  rw [maybeAddWebSearchReplayInstruction]
  split
  case isFalse => exact hrefl
  case isTrue =>
    split
    case isTrue => exact hrefl
    case isFalse =>
      have hsplit := takeWhile_append_dropWhile (p := (·.isSystem)) (l := messages)
      have hhint : Message.isSystem (.ofText "system" replayHint) := by decide
      refine ⟨fun first hfirst hsystem => ?_, fun p hp => ?_, ?_, fun hends => ?_⟩
      · cases messages with
        | nil => cases hfirst
        | cons msg messages =>
          cases hfirst
          rw [takeWhile_cons_of_pos hsystem]
          rfl
      · conv_rhs => rw [← hsplit]
        rw [countP_append, countP_append, countP_cons_of_neg (by rw [hp]; decide)]
      · conv_rhs => rw [← hsplit]
        rw [said_append, said_append, said_cons_of_eq_nil
          (Message.spoken_of_ne (Message.isSystem_role hhint).1)]
      · rw [← hsplit] at hends
        have hne : messages.dropWhile (·.isSystem) ≠ [] := by
          intro hnil
          rw [hnil, append_nil] at hends
          obtain ⟨last, hlast, hspoken⟩ := hends
          exact not_hasNonToolResultBlocks (Message.isSystem_role
            (mem_takeWhile_imp (mem_of_getLast? hlast))).1 hspoken
        rw [endsSpoken_append _ hne] at hends
        rw [append_cons, endsSpoken_append _ hne]
        exact hends

/-! ## The request as a whole -/

def Message.isPrompt (systemPrompt : String) (msg : Message) : Bool :=
  msg.isSystem && msg.text = systemPrompt

/-- The messages begin with the system prompt, and it comes up nowhere else. -/
structure Opens (systemPrompt : String) (messages : List Message) : Prop where
  head : messages.head? = some (.ofText "system" systemPrompt)
  once : messages.countP (·.isPrompt systemPrompt) = 1

def Asked (question : String) (messages : List Message) : Prop :=
  ∃ blocks ∈ said messages, .makeText question ∈ blocks

def AskedLast (question : String) (messages : List Message) : Prop :=
  ∃ blocks ∈ (said messages).getLast?, .makeText question ∈ blocks

section Requests

variable {systemPrompt question : String} {messages messages' : List Message}

theorem AskedLast.asked (h : AskedLast question messages) : Asked question messages := by
  obtain ⟨blocks, hblocks, hquestion⟩ := h
  exact ⟨blocks, mem_of_getLast? hblocks, hquestion⟩

theorem text_ofText (role text : String) : (Message.ofText role text).text = text := by
  rw [Message.text, Message.ofText]
  dsimp only
  split_ifs with hempty
  · exact hempty.symm
  · exact String.empty_append

theorem isPrompt_ofText (hprompt : systemPrompt ≠ "") :
    Message.isSystem (.ofText "system" systemPrompt) ∧
      (Message.ofText "system" systemPrompt).content ≠ [] ∧
      (Message.ofText "system" systemPrompt).isPrompt systemPrompt := by
  refine ⟨rfl, ?_, ?_⟩
  · rw [Message.ofText, if_neg hprompt]
    exact cons_ne_nil _ _
  · rw [Message.isPrompt, text_ofText, decide_eq_true rfl]
    rfl

theorem not_isPrompt_ofText {notice : String} (h : systemPrompt ≠ notice) :
    ¬ (Message.ofText "system" notice).isPrompt systemPrompt := by
  rw [Message.isPrompt, text_ofText, decide_eq_false h.symm, Bool.and_false]
  exact Bool.false_ne_true

theorem Opens.of_sublist (hprompt : systemPrompt ≠ "") (h : Opens systemPrompt messages)
    (hhead : messages'.head? = some (.ofText "system" systemPrompt))
    (hsystems : (messages'.filter (·.isSystem)).Sublist (messages.filter (·.isSystem))) :
    Opens systemPrompt messages' := by
  have hcount (l : List Message) : l.countP (·.isPrompt systemPrompt) =
      (l.filter (·.isSystem)).countP (·.isPrompt systemPrompt) := by
    rw [countP_filter]
    refine countP_congr fun msg _ => ?_
    rw [Message.isPrompt, Bool.and_eq_true, Bool.and_eq_true, Bool.and_eq_true]
    exact ⟨fun h => ⟨h, h.1⟩, fun h => h.1⟩
  refine ⟨hhead, le_antisymm ?_ ?_⟩
  · rw [← h.once, hcount, hcount messages]
    exact hsystems.countP_le
  · exact countP_pos_iff.2 ⟨_, mem_of_head? hhead, (isPrompt_ofText hprompt).2.2⟩

theorem Reworks.opens (hprompt : systemPrompt ≠ "") (h : Reworks messages messages')
    (hopens : Opens systemPrompt messages) : Opens systemPrompt messages' := by
  obtain ⟨hsystem, hne, -⟩ := isPrompt_ofText hprompt
  exact hopens.of_sublist hprompt (h.head _ hopens.head hsystem hne) h.systems

theorem Reworks.asked (h : Reworks messages messages') (hasked : Asked question messages) :
    Asked question messages' := by
  obtain ⟨blocks, hblocks, hquestion⟩ := hasked
  obtain ⟨blocks', hblocks', hsubset⟩ := h.said.each blocks hblocks
  exact ⟨blocks', hblocks', hsubset hquestion⟩

theorem Reworks.askedLast (h : Reworks messages messages') (hasked : AskedLast question messages) :
    AskedLast question messages' := by
  obtain ⟨blocks, hblocks, hquestion⟩ := hasked
  obtain ⟨blocks', hblocks', hsubset⟩ := h.said.last blocks hblocks
  exact ⟨blocks', hblocks', hsubset hquestion⟩

/-- What a pass over a request should keep: the prompt at the start and nowhere else, the question as
what the user said last, and the last word. -/
structure Keeps (systemPrompt question : String) (messages messages' : List Message) : Prop where
  opens : Opens systemPrompt messages → Opens systemPrompt messages'
  askedLast : AskedLast question messages → AskedLast question messages'
  ends : EndsSpoken messages → EndsSpoken messages'

theorem Keeps.trans {messages'' : List Message} (h : Keeps systemPrompt question messages messages')
    (h' : Keeps systemPrompt question messages' messages'') :
    Keeps systemPrompt question messages messages'' :=
  ⟨h'.opens ∘ h.opens, h'.askedLast ∘ h.askedLast, h'.ends ∘ h.ends⟩

theorem Reworks.keeps (hprompt : systemPrompt ≠ "") (h : Reworks messages messages') :
    Keeps systemPrompt question messages messages' :=
  ⟨h.opens hprompt, h.askedLast, h.ends⟩

theorem keeps_trim (hprompt : systemPrompt ≠ "") (messages : List Message) :
    Keeps systemPrompt question messages (trimAnthropicReplayToCurrentTurn messages) := by
  obtain ⟨hhead, hsublist, hlast, hends⟩ := trim_spec messages
  refine ⟨fun hopens => ?_, fun hasked => ?_, fun hspoken => ?_⟩
  · exact hopens.of_sublist hprompt (hhead _ hopens.head (isPrompt_ofText hprompt).1)
      (hsublist.filter _)
  · rw [AskedLast, hlast]
    exact hasked
  · rw [hends hspoken]
    exact hspoken

theorem keeps_hint (hhint : systemPrompt ≠ replayHint) (messages : List Message)
    (names : List String) :
    Keeps systemPrompt question messages (maybeAddWebSearchReplayInstruction messages names) := by
  obtain ⟨hhead, hcount, hsaid, hends⟩ := hint_spec messages names
  refine ⟨fun hopens => ⟨hhead _ hopens.head rfl, ?_⟩, fun hasked => ?_, hends⟩
  · rw [hcount _ (Bool.eq_false_iff.2 (not_isPrompt_ofText hhint)), hopens.once]
  · rw [AskedLast, hsaid]
    exact hasked

/-- **Sanitizing a request** keeps the prompt, and the question as what the user said last.  When
something else was said since, the question can go away only where the request is trimmed: for
Anthropic, and when the user does not have the last word. -/
theorem keeps_sanitize (question : String) (hprompt : systemPrompt ≠ "")
    (hhint : systemPrompt ≠ replayHint)
    {validator : Option TurnValidator} (hvalidator : ∀ v ∈ validator, v = builtin) (name : String)
    (messages : List Message) :
    Keeps systemPrompt question messages (sanitizeRequestMessages (some name) validator messages) ∧
      (name ≠ "anthropic" ∨ EndsSpoken messages → Asked question messages →
        Asked question (sanitizeRequestMessages (some name) validator messages)) := by
  have hvalidate (request : List Message) (hrequest : request =
      if some name = some "anthropic" then
        let messages := repairAnthropicToolPairing messages
        let messages := collapseCompletedAnthropicToolTurns messages
        let messages := mergeConsecutiveUserMessages messages
        let messages := trimAnthropicReplayToCurrentTurn messages
        maybeAddWebSearchReplayInstruction messages (collectTrailingReplayToolNames messages)
      else messages) :
      Reworks request (sanitizeRequestMessages (some name) validator messages) := by
    rw [hrequest]
    cases validator with
    | none => exact .refl _
    | some v =>
      obtain rfl := hvalidator v rfl
      exact reworks_builtin name _
  by_cases hname : name = "anthropic"
  · obtain ⟨prepared, hprepared, hvalidate⟩ : ∃ prepared, Reworks messages prepared ∧
        Reworks (maybeAddWebSearchReplayInstruction (trimAnthropicReplayToCurrentTurn prepared)
            (collectTrailingReplayToolNames (trimAnthropicReplayToCurrentTurn prepared)))
          (sanitizeRequestMessages (some name) validator messages) :=
      ⟨_, ((reworks_repair messages).trans (reworks_collapse _)).trans (reworks_merge _),
        hvalidate _ (if_pos (congrArg some hname)).symm⟩
    refine ⟨(((hprepared.keeps hprompt).trans (keeps_trim hprompt prepared)).trans
      (keeps_hint hhint _ _)).trans (hvalidate.keeps hprompt), ?_⟩
    rintro (hnot | hends) hasked
    · exact absurd hname hnot
    · refine hvalidate.asked ?_
      obtain ⟨-, -, hsaid, -⟩ := hint_spec (trimAnthropicReplayToCurrentTurn prepared)
        (collectTrailingReplayToolNames (trimAnthropicReplayToCurrentTurn prepared))
      rw [Asked, hsaid, (trim_spec prepared).2.2.2 (hprepared.ends hends)]
      exact hprepared.asked hasked
  · have hvalidate := hvalidate messages (if_neg fun h => hname (Option.some.inj h)).symm
    exact ⟨hvalidate.keeps hprompt, fun _ => hvalidate.asked⟩

end Requests

end RavBot.Core
