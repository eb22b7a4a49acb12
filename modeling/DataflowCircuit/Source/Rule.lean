/-!
# Rules of the Grammar

The named rules of the source language. A diagnostic lists the rules that
were expected by their names, the end of the input first and the others in
the order of the grammar, so the order of `all` is the order of the
diagnostic.

## Main definitions

* `Rule`: The named rules.
* `Rule.text`: The name of a rule.
* `Rule.all`: The rules in the order in which they are listed.
* `expectation`: What was expected, in words.
-/

namespace DataflowCircuit

namespace Source

/-- A named rule of the grammar. -/
inductive Rule where
  | endOfInput
  | identifier | chanPath | chanRef
  | bitwidth | hex | binary | decimal | numLit
  | intType | boolType | chanType
  | arrayLen | declName | declList
  | portDir | portGroup | portList
  | chanDecl | aliasDecl | bodyItem
  | opAshr | opShr | opShl | opLe | opGe | opNe | opLt | opGt | opEq
  | opOr | opAnd | opXor | opAdd | opSub | opMul | opDiv | opMod
  | opNeg | opCompl | opNot
  | castInt | castBool | condExpr | expr
  | unconnected | target | targetList
  | bufferSpec | funcStmt
  | mixerMark | arbiterMark | guardSpec | selectStmt
  | cluster | dflowStmt | dataflow | process | file
  deriving DecidableEq, Repr

namespace Rule

/-- The name of a rule in a diagnostic. -/
def text : Rule → String
  | .endOfInput => "EOI"
  | .identifier => "identifier"
  | .chanPath => "chan_path"
  | .chanRef => "chan_ref"
  | .bitwidth => "bitwidth"
  | .hex => "hex"
  | .binary => "binary"
  | .decimal => "decimal"
  | .numLit => "num_lit"
  | .intType => "int_type"
  | .boolType => "bool_type"
  | .chanType => "chan_type"
  | .arrayLen => "array_len"
  | .declName => "decl_name"
  | .declList => "decl_list"
  | .portDir => "port_dir"
  | .portGroup => "port_group"
  | .portList => "port_list"
  | .chanDecl => "chan_decl"
  | .aliasDecl => "alias"
  | .bodyItem => "body_item"
  | .opAshr => "op_ashr"
  | .opShr => "op_shr"
  | .opShl => "op_shl"
  | .opLe => "op_le"
  | .opGe => "op_ge"
  | .opNe => "op_ne"
  | .opLt => "op_lt"
  | .opGt => "op_gt"
  | .opEq => "op_eq"
  | .opOr => "op_or"
  | .opAnd => "op_and"
  | .opXor => "op_xor"
  | .opAdd => "op_add"
  | .opSub => "op_sub"
  | .opMul => "op_mul"
  | .opDiv => "op_div"
  | .opMod => "op_mod"
  | .opNeg => "op_neg"
  | .opCompl => "op_compl"
  | .opNot => "op_not"
  | .castInt => "cast_int"
  | .castBool => "cast_bool"
  | .condExpr => "cond_expr"
  | .expr => "expr"
  | .unconnected => "unconnected"
  | .target => "target"
  | .targetList => "target_list"
  | .bufferSpec => "buffer_spec"
  | .funcStmt => "func_stmt"
  | .mixerMark => "mixer_mark"
  | .arbiterMark => "arbiter_mark"
  | .guardSpec => "guard_spec"
  | .selectStmt => "select_stmt"
  | .cluster => "cluster"
  | .dflowStmt => "dflow_stmt"
  | .dataflow => "dataflow"
  | .process => "process"
  | .file => "file"

/-- Every rule, in the order in which a diagnostic lists them. -/
def all : List Rule :=
  [.endOfInput, .identifier, .chanPath, .chanRef, .bitwidth, .hex, .binary, .decimal,
   .numLit, .intType, .boolType, .chanType, .arrayLen, .declName, .declList, .portDir,
   .portGroup, .portList, .chanDecl, .aliasDecl, .bodyItem, .opAshr, .opShr, .opShl,
   .opLe, .opGe, .opNe, .opLt, .opGt, .opEq, .opOr, .opAnd, .opXor, .opAdd, .opSub,
   .opMul, .opDiv, .opMod, .opNeg, .opCompl, .opNot, .castInt, .castBool, .condExpr,
   .expr, .unconnected, .target, .targetList, .bufferSpec, .funcStmt, .mixerMark,
   .arbiterMark, .guardSpec, .selectStmt, .cluster, .dflowStmt, .dataflow, .process,
   .file]

end Rule

/-- An enumeration with `or` before its last member, and a comma before that
    if there are more than two. -/
def alternatives : List String → String
  | [] => ""
  | [a] => a
  | [a, b] => a ++ " or " ++ b
  | names => String.intercalate ", " names.dropLast ++ ", or " ++ names.getLastD ""

/-- What was expected where the rules `failed` failed, each listed once. -/
def expectation (failed : List Rule) : String :=
  "expected " ++ alternatives ((Rule.all.filter (· ∈ failed)).map Rule.text)

end Source

end DataflowCircuit
