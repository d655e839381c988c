import StyleModules.Proofs.Sheet.Outline

/-!
# The owner of a comment

A comment waits for a node. Its owner is the first node that starts behind it while the innermost
block around the comment is still open; where that block ends first, or the sheet does, the owner
is the block itself. Braces without a selector make no difference, at any depth.

Nodes are known by their place in the listing of the tree. The sheet itself is 0, and the others
are counted as they start. So the owner of a comment can be said of the tokens alone (`owner`), and
a node has just those comments that it owns, in their order (`parse_attaches`).
-/

namespace StyleModules

/-- Where a reading stands: how many nodes have started, and what is open. -/
structure Standing where
  /-- The number of the last node that has started. -/
  started : Nat := 0
  /-- For each open brace, innermost first, the innermost block that is open behind it. -/
  braces : List Nat := []

namespace Standing

/-- The blocks that are open, innermost first; the last is the sheet itself. -/
def blocks (standing : Standing) : List Nat := standing.braces ++ [0]

/-- The innermost open block. -/
def home (standing : Standing) : Nat := standing.braces.head?.getD 0

/-- One token on. A brace without a selector opens no block. -/
def step (standing : Standing) (token : Token) : Standing where
  started := if token.node?.isSome then standing.started + 1 else standing.started
  braces :=
    match token with
    | .opening _ =>
      (if token.node?.isSome then standing.started + 1 else standing.home) :: standing.braces
    | .closing => standing.braces.tail
    | _ => standing.braces

/-- The innermost open block is open. -/
theorem home_mem_blocks (standing : Standing) : standing.home ∈ standing.blocks := by
  obtain ⟨started, braces⟩ := standing
  cases braces with
  | nil => exact List.mem_cons_self
  | cons place braces => exact List.mem_cons_self

variable {head : Text} (standing : Standing)

/-- A statement that is not blank starts a node. -/
theorem step_statement (h : ¬(Text.trim head).isEmpty = true) (ended : Bool) :
    standing.step (.statement head ended) = { standing with started := standing.started + 1 } := by
  simp [step, Token.node?, h]

/-- A blank statement leaves the reading where it is. -/
theorem step_statement_of_blank (h : (Text.trim head).isEmpty = true) (ended : Bool) :
    standing.step (.statement head ended) = standing := by
  simp [step, Token.node?, h]

/-- A selector that is not blank starts a node and opens it. -/
theorem step_opening (h : ¬(Text.trim head).isEmpty = true) :
    standing.step (.opening head) =
      ⟨standing.started + 1, (standing.started + 1) :: standing.braces⟩ := by
  simp [step, Token.node?, h]

/-- A brace without a selector opens the block around once more. -/
theorem step_opening_of_blank (h : (Text.trim head).isEmpty = true) :
    standing.step (.opening head) =
      { standing with braces := standing.home :: standing.braces } := by
  simp [step, Token.node?, h]

end Standing

/-- The first node that starts in tokens while the block is still open, else the block. -/
def owner (block : Nat) (standing : Standing) : List Token → Nat
  | [] => block
  | token :: tokens =>
    if block ∈ standing.blocks then
      if token.node?.isSome then standing.started + 1
      else owner block (standing.step token) tokens
    else block

/-- The comments among tokens that a node owns, in their order. -/
def owned (number : Nat) (standing : Standing) : List Token → List Text
  | [] => []
  | token :: tokens =>
    (if owner standing.home (standing.step token) tokens = number then token.comment?.toList
      else []) ++ owned number (standing.step token) tokens

section Owner

variable {standing : Standing}

/-- A block that is not open owns what waits for it. -/
theorem owner_of_not_mem {block : Nat} (h : block ∉ standing.blocks) (tokens : List Token) :
    owner block standing tokens = block := by
  cases tokens with
  | nil => rfl
  | cons token tokens => rw [owner, if_neg h]

/-- If the next token starts a node, that node is the owner. -/
theorem owner_home_of_starts {token : Token} (h : token.node?.isSome = true)
    (tokens : List Token) :
    owner standing.home standing (token :: tokens) = standing.started + 1 := by
  rw [owner, if_pos standing.home_mem_blocks, if_pos h]

/-- If the next token starts no node, the owner is found behind it. -/
theorem owner_home_of_not_starts {token : Token} (h : token.node? = none) (tokens : List Token) :
    owner standing.home standing (token :: tokens) =
      owner standing.home (standing.step token) tokens := by
  rw [owner, if_pos standing.home_mem_blocks, h]
  rfl

/-- Only comments are owned. -/
theorem owned_cons_of_comment?_eq_none {token : Token} (h : token.comment? = none) (number : Nat)
    (tokens : List Token) :
    owned number standing (token :: tokens) = owned number (standing.step token) tokens := by
  rw [owned, h]
  split <;> rfl

end Owner

namespace Flat

/-- Blocks are numbered from the outside in, and a brace without a selector has the number of the
block that it is in. -/
def Nested : List Brace → Prop
  | [] => True
  | brace :: braces =>
    (if brace.selector.isEmpty then brace.place = (braces.map Brace.place).head?.getD 0
      else ∀ place ∈ braces.map Brace.place ++ [0], place < brace.place) ∧ Nested braces

/-- The flat machine stands where the tokens say. -/
structure Stands (flat : Flat) (standing : Standing) : Prop where
  /-- It has listed the sheet and the nodes that have started. -/
  length : flat.listing.length = standing.started + 1
  /-- The same braces are open. -/
  braces : flat.braces.map Brace.place = standing.braces
  /-- They are numbered from the outside in. -/
  nested : Nested flat.braces
  /-- Their blocks are listed. -/
  lt : ∀ place ∈ flat.braces.map Brace.place, place < flat.listing.length

variable {flat : Flat} {standing : Standing}

/-- The innermost open block is where the tokens say. -/
theorem Stands.home (h : flat.Stands standing) : flat.home = standing.home := by
  rw [Flat.home, Standing.home, ← h.braces, List.head?_map]

/-- The innermost open block is listed. -/
theorem Stands.home_lt (h : flat.Stands standing) : flat.home < flat.listing.length := by
  have hlength := h.length
  have hlt := h.lt
  rw [Flat.home]
  cases hbraces : flat.braces with
  | nil =>
    show 0 < _
    omega
  | cons brace braces =>
    rw [hbraces] at hlt
    exact hlt brace.place List.mem_cons_self

/-- A node that starts is counted. -/
theorem Stands.start (h : flat.Stands standing) (node : Node) :
    (flat.start node).Stands { standing with started := standing.started + 1 } := by
  have hlength : (flat.start node).listing.length = flat.listing.length + 1 := by
    simp [Flat.start]
  refine ⟨by rw [hlength, h.length], h.braces, h.nested, fun place hp => ?_⟩
  have hold := h.lt place hp
  omega

/-- Comments that go to a node leave the machine where it stands. -/
theorem Stands.leave (h : flat.Stands standing) : flat.leave.Stands standing := by
  have hlength : flat.leave.listing.length = flat.listing.length := List.length_modify _ _ _
  refine ⟨hlength.trans h.length, h.braces, h.nested, fun place hp => ?_⟩
  rw [hlength]
  exact h.lt place hp

/-- A brace may be opened at a place that is listed, inside of all open ones or for the innermost.
-/
theorem Stands.push (h : flat.Stands standing) {brace : Brace}
    (hplace : brace.place < flat.listing.length)
    (hnested : if brace.selector.isEmpty then brace.place = standing.home
      else ∀ place ∈ standing.blocks, place < brace.place) :
    Stands { flat with braces := brace :: flat.braces }
      { standing with braces := brace.place :: standing.braces } where
  length := h.length
  braces := by rw [List.map_cons, h.braces]
  nested := by
    refine ⟨?_, h.nested⟩
    rw [h.braces]
    exact hnested
  lt := by
    intro place hp
    rcases List.mem_cons.mp hp with rfl | hp
    · exact hplace
    · exact h.lt place hp

/-- A closing brace takes the last opening one away. -/
theorem Stands.pop (h : flat.Stands standing) {brace : Brace} {braces : List Brace}
    (hopen : flat.braces = brace :: braces) :
    Stands { flat with braces := braces } (standing.step .closing) := by
  obtain ⟨hlength, hbraces, hnested, hlt⟩ := h
  rw [hopen] at hbraces hnested hlt
  refine ⟨hlength, ?_, hnested.2, fun place hp => hlt place (List.mem_cons_of_mem _ hp)⟩
  rw [Standing.step, ← hbraces]
  rfl

/-- One token on, the machine still stands where the tokens say. -/
theorem Stands.step (h : flat.Stands standing) (token : Token) :
    (flat.step token).Stands (standing.step token) := by
  cases token with
  | space run => exact ⟨h.length, h.braces, h.nested, h.lt⟩
  | comment text => exact ⟨h.length, h.braces, h.nested, h.lt⟩
  | statement head ended =>
    rw [Flat.step]
    by_cases hblank : (Text.trim head).isEmpty = true
    · rw [if_pos hblank, standing.step_statement_of_blank hblank]
      exact h
    · rw [if_neg hblank, standing.step_statement hblank]
      exact h.start _
  | opening head =>
    rw [Flat.step]
    by_cases hblank : (Text.trim head).isEmpty = true
    · rw [if_pos hblank, standing.step_opening_of_blank hblank, ← h.home]
      exact h.push h.home_lt (by rw [if_pos List.isEmpty_nil]; exact h.home)
    · have hbelow : ∀ place ∈ standing.blocks, place < flat.listing.length := by
        intro place hp
        rcases List.mem_append.mp hp with hp | hp
        · exact h.lt place (h.braces ▸ hp)
        · rw [List.mem_singleton.mp hp]
          exact Nat.zero_lt_of_lt h.home_lt
      have hstart := h.start (Node.emptyBlock (Text.trim head))
      rw [if_neg hblank, standing.step_opening hblank]
      rw [← h.length] at hstart ⊢
      refine @Stands.push _ _ hstart ⟨Text.trim head, flat.listing.length⟩ ?_ ?_
      · simp [Flat.start]
      · rw [if_neg hblank]
        exact hbelow
  | closing =>
    rw [Flat.step]
    cases hopen : flat.braces with
    | nil =>
      have hbraces := h.braces
      rw [hopen] at hbraces
      have hsame : standing.step .closing = standing := by
        obtain ⟨started, braces⟩ := standing
        obtain rfl : [] = braces := hbraces
        rfl
      rw [hsame]
      exact h
    | cons brace braces =>
      show Stands (if brace.selector.isEmpty then _ else _) _
      split
      · exact h.pop hopen
      · exact h.leave.pop hopen

/-- Nothing is open and nothing listed at the start. -/
theorem stands_start : ({} : Flat).Stands {} := ⟨rfl, rfl, trivial, by simp⟩

/-- The comments of the node at a place of the listing. -/
def commentsAt (flat : Flat) (number : Nat) : List Text :=
  (flat.listing[number]?.map (·.node.comments)).getD []

/-- A started node takes the comments that wait. -/
theorem commentsAt_start (flat : Flat) (node : Node) (number : Nat) :
    (flat.start node).commentsAt number =
      flat.commentsAt number ++ (if flat.listing.length = number then flat.pending else []) := by
  rw [commentsAt, commentsAt, start]
  by_cases he : flat.listing.length = number
  · subst he
    simp
  · rw [if_neg he, List.append_nil]
    by_cases hlt : number < flat.listing.length
    · rw [List.getElem?_append_left hlt]
    · have hend : flat.listing.length + 1 ≤ number := by omega
      rw [List.getElem?_eq_none (by simpa using hend), List.getElem?_eq_none (by omega)]

/-- The block that is left takes the comments that wait. -/
theorem commentsAt_leave (h : flat.home < flat.listing.length) (number : Nat) :
    flat.leave.commentsAt number =
      flat.commentsAt number ++ (if flat.home = number then flat.pending else []) := by
  rw [commentsAt, commentsAt, leave, List.getElem?_modify]
  by_cases he : flat.home = number
  · subst he
    simp [List.getElem?_eq_getElem h, Placed.addComments]
  · simp [he]

/-- The comments that a node will have behind tokens: those that it has, those that wait, if it is
the owner of a comment at this place, and those in the tokens that it owns. -/
def due (flat : Flat) (standing : Standing) (tokens : List Token) (number : Nat) : List Text :=
  flat.commentsAt number ++
    ((if owner standing.home standing tokens = number then flat.pending else []) ++
      owned number standing tokens)

/-- A token that starts a node hands the comments that wait to it. -/
theorem due_of_starts (h : flat.Stands standing) {token : Token} (hnode : token.node?.isSome = true)
    (hcomment : token.comment? = none) {next : Flat} {node : Node}
    (hlisting : next.listing = (flat.start node).listing) (hpending : next.pending = [])
    (tokens : List Token) (number : Nat) :
    next.due (standing.step token) tokens number = flat.due standing (token :: tokens) number := by
  have hcomments : next.commentsAt number = (flat.start node).commentsAt number := by
    rw [commentsAt, commentsAt, hlisting]
  rw [due, due, hcomments, commentsAt_start, hpending, ite_self, owner_home_of_starts hnode,
    ← h.length, owned_cons_of_comment?_eq_none hcomment, List.nil_append, List.append_assoc]

/-- A token that starts no node and leaves the innermost block open changes nothing. -/
theorem due_of_idle {token : Token} (hnode : token.node? = none) (hcomment : token.comment? = none)
    {next : Flat} (hlisting : next.listing = flat.listing) (hpending : next.pending = flat.pending)
    (hhome : (standing.step token).home = standing.home) (tokens : List Token) (number : Nat) :
    next.due (standing.step token) tokens number = flat.due standing (token :: tokens) number := by
  rw [due, due, commentsAt, commentsAt, hlisting, hpending, hhome, owner_home_of_not_starts hnode,
    owned_cons_of_comment?_eq_none hcomment]

/-- A closing brace that ends the innermost block hands the comments that wait to it. -/
theorem due_of_ends (h : flat.Stands standing)
    (hends : standing.home ∉ (standing.step .closing).blocks) {next : Flat}
    (hlisting : next.listing = flat.leave.listing) (hpending : next.pending = [])
    (tokens : List Token) (number : Nat) :
    next.due (standing.step .closing) tokens number =
      flat.due standing (.closing :: tokens) number := by
  have hcomments : next.commentsAt number = flat.leave.commentsAt number := by
    rw [commentsAt, commentsAt, hlisting]
  rw [due, due, hcomments, commentsAt_leave h.home_lt, hpending, ite_self,
    owner_home_of_not_starts rfl, owner_of_not_mem hends, h.home,
    owned_cons_of_comment?_eq_none rfl, List.nil_append, List.append_assoc]

/-- One token changes nothing about the comments that nodes will have. -/
theorem due_step (h : flat.Stands standing) (token : Token) (tokens : List Token) (number : Nat) :
    (flat.step token).due (standing.step token) tokens number =
      flat.due standing (token :: tokens) number := by
  cases token with
  | space run => exact due_of_idle rfl rfl rfl rfl rfl tokens number
  | comment text =>
    show flat.commentsAt number ++
        ((if owner standing.home standing tokens = number then flat.pending ++ [text] else []) ++
          owned number standing tokens) = _
    rw [due, owner_home_of_not_starts rfl, owned]
    show _ = flat.commentsAt number ++
        ((if owner standing.home standing tokens = number then flat.pending else []) ++
          ((if owner standing.home standing tokens = number then [text] else []) ++ _))
    split
    · rw [List.append_assoc flat.pending]
      rfl
    · rfl
  | statement head ended =>
    by_cases hblank : (Text.trim head).isEmpty = true
    · have hstep : flat.step (.statement head ended) = flat := if_pos hblank
      have hnode : (Token.statement head ended).node? = none := if_pos hblank
      have hhome : (standing.step (.statement head ended)).home = standing.home :=
        congrArg Standing.home (standing.step_statement_of_blank hblank ended)
      rw [hstep]
      exact due_of_idle hnode rfl rfl rfl hhome tokens number
    · have hnode : (Token.statement head ended).node?.isSome = true := by
        simp [Token.node?, hblank]
      have hstep : flat.step (.statement head ended) = flat.start (Node.ofStatement head []) :=
        if_neg hblank
      rw [hstep]
      exact due_of_starts h hnode rfl rfl rfl tokens number
  | opening head =>
    rw [step]
    by_cases hblank : (Text.trim head).isEmpty = true
    · have hnode : (Token.opening head).node? = none := if_pos hblank
      have hhome : (standing.step (.opening head)).home = standing.home := by
        rw [standing.step_opening_of_blank hblank]
        rfl
      rw [if_pos hblank]
      exact due_of_idle hnode rfl rfl rfl hhome tokens number
    · have hnode : (Token.opening head).node?.isSome = true := by simp [Token.node?, hblank]
      rw [if_neg hblank]
      exact due_of_starts h hnode rfl rfl rfl tokens number
  | closing =>
    have hbraces := h.braces
    have hnested := h.nested
    rw [step]
    cases hopen : flat.braces with
    | nil =>
      rw [hopen] at hbraces
      refine due_of_idle rfl rfl rfl rfl ?_ tokens number
      rw [Standing.step, Standing.home, Standing.home, ← hbraces]
      rfl
    | cons brace braces =>
      rw [hopen] at hbraces hnested
      show due (if brace.selector.isEmpty then _ else _) _ _ _ = _
      have hplace := hnested.1
      by_cases hblank : brace.selector.isEmpty = true
      · rw [if_pos hblank] at hplace ⊢
        refine due_of_idle rfl rfl rfl rfl ?_ tokens number
        rw [Standing.step, Standing.home, Standing.home, ← hbraces]
        exact hplace.symm
      · rw [if_neg hblank] at hplace ⊢
        refine due_of_ends h ?_ rfl rfl tokens number
        rw [Standing.step, Standing.blocks, Standing.home, ← hbraces]
        exact fun hmem => Nat.lt_irrefl _ (hplace brace.place hmem)

/-- At the start nodes will have what they own. -/
theorem due_start (tokens : List Token) (number : Nat) :
    ({} : Flat).due {} tokens number = owned number {} tokens := by
  have hnone : ({} : Flat).commentsAt number = [] := by
    cases number with
    | zero => rfl
    | succ number => simp [commentsAt]
  rw [due, hnone, ite_self]
  rfl

/-- What the tokens of a sheet leave every node with. -/
theorem commentsAt_leave_foldl (h : flat.Stands standing) (tokens : List Token) (number : Nat) :
    (tokens.foldl step flat).leave.commentsAt number = flat.due standing tokens number := by
  induction tokens generalizing flat standing with
  | nil =>
    rw [List.foldl_nil, commentsAt_leave h.home_lt, h.home, due, owned, List.append_nil]
    rfl
  | cons token tokens ih => rw [List.foldl_cons, ih (h.step token), due_step h]

/-- The machine stands where the tokens say after any number of them. -/
theorem stands_foldl (h : flat.Stands standing) (tokens : List Token) :
    (tokens.foldl step flat).Stands (tokens.foldl Standing.step standing) := by
  induction tokens generalizing flat standing with
  | nil => exact h
  | cons token tokens ih => exact ih (h.step token)

/-- The comments of the nodes that have started. -/
def comments (flat : Flat) : List Text := flat.listing.flatMap (·.node.comments)

/-- A started node takes the comments that wait, behind all others. -/
theorem comments_start (flat : Flat) (node : Node) :
    (flat.start node).comments = flat.comments ++ flat.pending := by
  simp [comments, start]

/-- Leaving the sheet adds the comments that wait. -/
theorem comments_leave_perm (h : flat.home < flat.listing.length) :
    flat.leave.comments.Perm (flat.comments ++ flat.pending) := by
  obtain ⟨front, placed, back, hlisting, -, hleave⟩ :=
    List.exists_of_modify (Placed.addComments flat.pending) h
  rw [comments, leave, hleave, comments, hlisting]
  simp only [List.flatMap_append, List.flatMap_cons, Placed.addComments, List.append_assoc]
  refine (List.Perm.append_left _ (List.Perm.append_left _ ?_))
  exact List.perm_append_comm

/-- One token on, all comments are in the tree or wait. -/
theorem comments_step_perm (h : flat.Stands standing) (token : Token) :
    ((flat.step token).comments ++ (flat.step token).pending).Perm
      (flat.comments ++ flat.pending ++ token.comment?.toList) := by
  have hstart : ∀ node, ((flat.start node).comments ++ []).Perm
      (flat.comments ++ flat.pending ++ []) := fun node => by rw [comments_start]
  have hsame : (flat.comments ++ flat.pending).Perm (flat.comments ++ flat.pending ++ []) := by
    rw [List.append_nil]
  cases token with
  | space run => exact hsame
  | comment text => exact List.Perm.of_eq (List.append_assoc _ _ _).symm
  | statement head ended =>
    rw [step]
    split
    · exact hsame
    · exact hstart _
  | opening head =>
    rw [step]
    split
    · exact hsame
    · exact hstart _
  | closing =>
    rw [step]
    split
    · exact hsame
    · split
      · exact hsame
      · exact (comments_leave_perm h.home_lt).append_right []

/-- The comments listed and waiting are those of the tokens and those from before. -/
theorem comments_foldl_perm (h : flat.Stands standing) (tokens : List Token) :
    ((tokens.foldl step flat).comments ++ (tokens.foldl step flat).pending).Perm
      (flat.comments ++ flat.pending ++ tokens.filterMap Token.comment?) := by
  induction tokens generalizing flat standing with
  | nil => rw [List.filterMap_nil, List.append_nil, List.foldl_nil]
  | cons token tokens ih =>
    have hfirst : (token :: tokens).filterMap Token.comment? =
        token.comment?.toList ++ tokens.filterMap Token.comment? := by
      cases token <;> rfl
    rw [List.foldl_cons, hfirst, ← List.append_assoc]
    exact (ih (h.step token)).trans ((comments_step_perm h token).append_right _)

end Flat

/-- The comments of the tokens are with the nodes that own them. -/
structure Node.Attaches (tokens : List Token) (root : Node) : Prop where
  /-- The nodes are the sheet itself and those that the tokens start, in their order. -/
  nodes : (root.listing []).map (fun placed => placed.bare.node) =
    { kind := .block } :: tokens.filterMap Token.node?
  /-- Each of them has the comments that it owns, in their order. -/
  comments : (root.listing []).map (·.node.comments) =
    (List.range (root.listing []).length).map fun number => owned number {} tokens
  /-- Together they have every comment, and each of them once. -/
  every : ((root.listing []).flatMap (·.node.comments)).Perm (tokens.filterMap Token.comment?)

/-- The comments of a sheet are in its tree, each with its owner. -/
theorem parse_attaches (t : Text) : (parse t).Attaches (scan t) where
  nodes := by
    have hnodes := congrArg (List.map Placed.node) (bare_listing_parse t)
    have houtline := @filterMap_outline Node (some ∘ Placed.node) Token.node?
      (fun token around => by cases token.node? <;> rfl) [] (scan t)
    rw [List.filterMap_eq_map] at houtline
    rw [List.map_map, List.map_cons, houtline] at hnodes
    exact hnodes
  comments := by
    apply List.ext_getElem
    · simp
    · intro number hlt _
      have hcomments := Flat.commentsAt_leave_foldl Flat.stands_start (scan t) number
      rw [Flat.due_start, Flat.commentsAt, ← listing_parse] at hcomments
      rw [List.length_map] at hlt
      rw [List.getElem?_eq_getElem hlt] at hcomments
      simpa using hcomments
  every := by
    have hstands := Flat.stands_foldl Flat.stands_start (scan t)
    rw [listing_parse]
    exact (Flat.comments_leave_perm hstands.home_lt).trans
      (Flat.comments_foldl_perm Flat.stands_start (scan t))

/-- Comments at the end of the first block stay there, in a group or not. Those before the second
block belong to it, and the one behind it, where no block is open, to the sheet. -/
example :
    let tokens := scan
      "a\x7b\x7b/*1*/\x7d/*2*/\x7d\x7b\x7b/*3*/\x7d/*4*/b\x7bc;\x7d/*5*/".toList
    (List.range 4).map (owned · {} tokens) = [["/*5*/".toList],
      ["/*1*/".toList, "/*2*/".toList], ["/*3*/".toList, "/*4*/".toList], []] := by
  decide +kernel

end StyleModules
