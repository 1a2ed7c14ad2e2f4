import LRWorkbench.GrammarText.Meaning
import LRWorkbench.Grammar.Compile

/-!
# The bundled language

HyperQL is a language of schema definitions, migrations and graph queries. Its grammar and the
query that names the pieces to highlight come as texts.
-/

namespace LRWorkbench.HyperQL

/-- The name of the language. -/
def name : String := "hyperql"

/-- The extensions of its files. -/
def extensions : List String := ["hql", "hyperql"]

/-- Whether a file extension, given without the dot, is one of the language's. Case does not
count. -/
def isExtension (extension : String) : Bool :=
  extensions.any fun e => e = extension.map Char.toLower

/-- The lines of the grammar. -/
def grammarLines : List String :=
  ["// HyperQL: schema definitions, migrations and graph queries.",
    "",
    "@grammar hyperql;",
    "@extras comment /\\s/;",
    "@word identifier;",
    "",
    "source_file = _statement* ;",
    "",
    "_statement = definition_statement",
    "           | manipulation_statement",
    "           | migration_statement",
    "           | system_statement",
    "           | batch_statement",
    "           | begin_transaction ;",
    "",
    "// Schema definitions",
    "",
    "definition_statement = define_namespace",
    "                     | define_enum",
    "                     | define_field",
    "                     | define_role",
    "                     | define_struct",
    "                     | define_trait",
    "                     | define_node",
    "                     | define_edge",
    "                     | define_index ;",
    "",
    "define_namespace = \"DEFINE\" \"NAMESPACE\" name: namespace_identifier",
    "                   (\"STRICT_MODE\" \"=\" strict: boolean_literal)? \";\" ;",
    "",
    "define_enum = \"DEFINE\" \"ENUM\" name: identifier \"\x7b\" (identifier (\",\" identifier)*)? \"\x7d\" ;",
    "",
    "define_field = \"DEFINE\" \"FIELD\" name: identifier \":\" type: data_type decorator* \";\" ;",
    "",
    "define_role = \"DEFINE\" \"ROLE\" name: identifier \"ALLOWS\"",
    "              \"[\" (identifier (\",\" identifier)*)? \"]\" \";\" ;",
    "",
    "define_struct = \"DEFINE\" \"STRUCT\" name: identifier \"\x7b\" (identifier (\",\" identifier)*)? \"\x7d\" ;",
    "",
    "define_trait = \"DEFINE\" \"TRAIT\" name: identifier \"\x7b\" (identifier (\",\" identifier)*)? \"\x7d\" ;",
    "",
    "define_node = \"DEFINE\" \"ABSTRACT\"? \"NODE\" name: identifier extends_clause? body: schema_body ;",
    "",
    "define_edge = \"DEFINE\" \"ABSTRACT\"? \"EDGE\" name: identifier extends_clause? body: schema_body ;",
    "",
    "extends_clause = \"EXTENDS\" \"[\" (identifier (\",\" identifier)*)? \"]\" ;",
    "",
    "schema_body = \"\x7b\" (_schema_member (\",\" _schema_member)*)? \"\x7d\" ;",
    "",
    "_schema_member = identifier | role_definition ;",
    "",
    "role_definition = name: identifier \":\" role_type: identifier",
    "                  cardinality: (\"(ONE)\" | \"(MANY)\") decorator* ;",
    "",
    "define_index = \"DEFINE\" \"INDEX\" name: identifier \"ON\" type: identifier",
    "               \"(\" (identifier (\",\" identifier)*)? \")\" \";\" ;",
    "",
    "// Migrations",
    "",
    "migration_statement = validate_migration | migrate | alter ;",
    "",
    "validate_migration = \"VALIDATE\" \"MIGRATION\" from: identifier \"TO\" to: identifier",
    "                     map_clause? defaults_clause? ;",
    "",
    "migrate = \"MIGRATE\" from: identifier \"TO\" to: identifier map_clause? defaults_clause? ;",
    "",
    "alter = \"ALTER\" (\"NODE\" | \"EDGE\") name: identifier",
    "        \"\x7b\" (alter_action (\",\" alter_action)*)? \"\x7d\" ;",
    "",
    "alter_action = \"ADD\" identifier",
    "             | \"DROP\" identifier",
    "             | \"RENAME\" from: identifier \"TO\" to: identifier ;",
    "",
    "map_clause = \"MAP\" \"\x7b\" (map_entry (\",\" map_entry)*)? \"\x7d\" ;",
    "",
    "map_entry = from: identifier \":\" to: identifier",
    "          | \"DROP\" \"[\" (identifier (\",\" identifier)*)? \"]\" ;",
    "",
    "defaults_clause = \"DEFAULTS\" \"\x7b\" (_default_entry (\",\" _default_entry)*)? \"\x7d\" ;",
    "",
    "_default_entry = key: identifier \":\" value: _literal ;",
    "",
    "// System and transactions",
    "",
    "system_statement = \"SHOW\" (\"NODE TYPES\" | \"EDGE TYPES\" | \"FIELDS\" | \"ROLES\" | \"SCHEMA\")",
    "                 | \"EXPLAIN\"",
    "                 | \"ANALYZE\" ;",
    "",
    "batch_statement = \"BATCH\" \"\x7b\" _statement* \"\x7d\" return_clause \";\" ;",
    "",
    "begin_transaction = \"BEGIN\" (\"ISOLATION\" \"LEVEL\" isolation_level)? \"ON ERROR CONTINUE\"? \";\" ;",
    "",
    "isolation_level = \"READ UNCOMMITTED\" | \"READ COMMITTED\" | \"REPEATABLE READ\" | \"SERIALIZABLE\" ;",
    "",
    "// Queries",
    "",
    "// A clause that could start the next statement continues the current one.",
    "manipulation_statement = prec.right(_clause+ \";\"?) ;",
    "",
    "_clause = import_clause",
    "        | match_clause",
    "        | match_path_clause",
    "        | optional_match_clause",
    "        | create_node_clause",
    "        | create_edge_clause",
    "        | merge_clause",
    "        | set_clause",
    "        | delete_clause",
    "        | detach_delete_clause",
    "        | remove_clause",
    "        | with_clause",
    "        | where_clause",
    "        | return_clause",
    "        | order_by_clause",
    "        | limit_clause",
    "        | skip_clause",
    "        | group_by_clause",
    "        | union_clause",
    "        | unwind_clause ;",
    "",
    "import_clause = \"IMPORT\" source: string_literal \"AS\" alias: identifier ;",
    "",
    "match_clause = \"MATCH\" pattern \"CROSS_TYPE\"? use_index_hint? ;",
    "",
    "match_path_clause = \"MATCH\" \"PATH\" path_var: identifier \"=\" pattern _weight_clause? ;",
    "",
    "_weight_clause = \"WEIGHT\" \"BY\" weight_field: identifier",
    "                 (\"USING\" aggregate: (\"SUM\" | \"MAX\" | \"MIN\" | \"AVG\"))? ;",
    "",
    "optional_match_clause = \"OPTIONAL\" \"MATCH\" pattern ;",
    "",
    "create_node_clause = \"CREATE\" \"NODE\" variable: identifier \":\" type: identifier",
    "                     properties: map_literal \";\" ;",
    "",
    "create_edge_clause = \"CREATE\" \"EDGE\" variable: identifier \":\" type: identifier",
    "                     \"\x7b\" (_edge_member (\",\" _edge_member)*)? \"\x7d\" \";\" ;",
    "",
    "_edge_member = property_assignment | role_assignment ;",
    "",
    "merge_clause = \"MERGE\" \"(\" variable: identifier \":\" type: identifier",
    "               \"\x7b\" (_edge_member (\",\" _edge_member)*)? \"\x7d\" \")\" on_action* ;",
    "",
    "on_action = \"ON\" (\"CREATE\" | \"MATCH\") \"SET\" assignment_expression (\",\" assignment_expression)* ;",
    "",
    "set_clause = \"SET\" _set_item (\",\" _set_item)* ;",
    "",
    "_set_item = assignment_expression | atomic_append | atomic_remove ;",
    "",
    "remove_clause = \"REMOVE\" identifier (\",\" identifier)* ;",
    "",
    "delete_clause = \"DELETE\" identifier (\",\" identifier)* ;",
    "",
    "detach_delete_clause = \"DETACH\" \"DELETE\" identifier (\",\" identifier)* ;",
    "",
    "// `WHERE` right after the projections belongs to the `WITH`.",
    "with_clause = prec.right(\"WITH\" _projection_element (\",\" _projection_element)* where_clause?) ;",
    "",
    "where_clause = \"WHERE\" _expression ;",
    "",
    "group_by_clause = \"GROUP\" \"BY\" _expression (\",\" _expression)* ;",
    "",
    "order_by_clause = \"ORDER\" \"BY\" _order_item (\",\" _order_item)* ;",
    "",
    "_order_item = _expression (\"ASC\" | \"DESC\")? ;",
    "",
    "limit_clause = \"LIMIT\" _expression ;",
    "",
    "skip_clause = \"SKIP\" _expression ;",
    "",
    "return_clause = \"RETURN\" \"DISTINCT\"? _projection_element (\",\" _projection_element)* ;",
    "",
    "union_clause = \"UNION\" | \"UNION\" \"ALL\" ;",
    "",
    "unwind_clause = \"UNWIND\" _expression \"AS\" alias: identifier ;",
    "",
    "use_index_hint = \"USE\" \"INDEX\" index: identifier ;",
    "",
    "_projection_element = _expression (\"AS\" alias: identifier)? ;",
    "",
    "// Patterns",
    "",
    "pattern = path_pattern (\",\" path_pattern)* ;",
    "",
    "path_pattern = node_pattern (edge_pattern node_pattern)* ;",
    "",
    "node_pattern = \"(\" variable: identifier? (\":\" type: identifier)? properties: map_literal? \")\" ;",
    "",
    "edge_pattern = (\"-\" | \"<-\") \"[\"",
    "               variable: identifier?",
    "               (\":\" type: identifier)?",
    "               \"*\"?",
    "               properties: map_literal?",
    "               _weight_clause?",
    "               \"]\" (\"-\" | \"->\") ;",
    "",
    "// Expressions",
    "",
    "_expression = identifier",
    "            | variable",
    "            | _literal",
    "            | function_call",
    "            | property_access",
    "            | binary_expression",
    "            | unary_expression",
    "            | case_expression",
    "            | match_expression",
    "            | subquery_expression",
    "            | window_function",
    "            | \"(\" _expression \")\" ;",
    "",
    "binary_expression = prec.left(6, left: _expression operator: (\"*\" | \"/\" | \"%\") right: _expression)",
    "                  | prec.left(5, left: _expression operator: (\"+\" | \"-\") right: _expression)",
    "                  | prec.left(4, left: _expression operator: (\"<\" | \">\" | \"<=\" | \">=\") right: _expression)",
    "                  | prec.left(3, left: _expression",
    "                                 operator: (\"==\" | \"=\" | \"!=\" | \"IS\" | \"LIKE\" | \"ILIKE\" | \"MATCHES\" | \"IMATCHES\" | \"IN\")",
    "                                 right: _expression)",
    "                  | prec.left(3, left: _expression operator: (\"IS NULL\" | \"IS NOT NULL\"))",
    "                  | prec.left(2, left: _expression operator: \"&&\" right: _expression)",
    "                  | prec.left(1, left: _expression operator: \"||\" right: _expression) ;",
    "",
    "unary_expression = prec(10, operator: (\"!\" | \"-\") operand: _expression) ;",
    "",
    "property_assignment = key: identifier \":\" value: _expression ;",
    "",
    "role_assignment = role: identifier \"->\" value: _expression ;",
    "",
    "assignment_expression = target: property_access \"=\" value: _expression ;",
    "",
    "atomic_append = target: property_access \"+=\" value: _expression ;",
    "",
    "atomic_remove = target: property_access \"-=\" value: _expression ;",
    "",
    "property_access = object: identifier (\".\" property: identifier)+ ;",
    "",
    "function_call = name: identifier \"(\" (_argument (\",\" _argument)*)? \")\" ;",
    "",
    "_argument = _expression | \"*\" ;",
    "",
    "window_function = function: function_call \"OVER\" \"(\"",
    "                  (\"PARTITION\" \"BY\" partition: _expression (\",\" partition: _expression)*)?",
    "                  (\"ORDER\" \"BY\" _order_item (\",\" _order_item)*)?",
    "                  \")\" ;",
    "",
    "match_expression = \"MATCH\" subject: _expression \"\x7b\" match_arm (\",\" match_arm)* \"\x7d\" ;",
    "",
    "match_arm = pattern: _expression \"=>\" value: _expression ;",
    "",
    "case_expression = \"CASE\" case_when* (\"ELSE\" default: _expression)? \"END\" ;",
    "",
    "case_when = \"WHEN\" condition: _expression \"THEN\" value: _expression ;",
    "",
    "subquery_expression = (\"EXISTS\" | \"IN\") \"(\" manipulation_statement \")\" ;",
    "",
    "// Types and literals",
    "",
    "data_type = \"String\" | \"Int\" | \"Int32\" | \"Float\" | \"Bool\" | \"Date\" | \"UUID\"",
    "          | \"Interval\" | \"Time\" | \"Decimal\" | \"Path\"",
    "          | \"Vector\" \"<\" size: integer_literal \">\"",
    "          | \"List\" \"<\" element: data_type \">\"",
    "          | \"Enum\" \"<\" name: identifier \">\"",
    "          | \"Struct\" \"<\" name: identifier \">\" ;",
    "",
    "decorator = \"@\" name: identifier (\"(\" _expression (\",\" _expression)* \")\")? ;",
    "",
    "_literal = string_literal",
    "         | integer_literal",
    "         | float_literal",
    "         | boolean_literal",
    "         | null_literal",
    "         | map_literal",
    "         | list_literal ;",
    "",
    "map_literal = \"\x7b\" (map_pair (\",\" map_pair)*)? \"\x7d\" ;",
    "",
    "map_pair = key: identifier \":\" value: _expression ;",
    "",
    "list_literal = \"[\" (_expression (\",\" _expression)*)? \"]\" ;",
    "",
    "variable = \"$\" name: identifier ;",
    "",
    "boolean_literal = \"true\" | \"false\" ;",
    "",
    "null_literal = \"null\" ;",
    "",
    "string_literal = /\"[^\"]*\"/ ;",
    "",
    "integer_literal = /[0-9]+/ ;",
    "",
    "float_literal = /[0-9]+\\.[0-9]+/ ;",
    "",
    "identifier = /[a-zA-Z_][a-zA-Z0-9_]*/ ;",
    "",
    "namespace_identifier = /[a-zA-Z_][a-zA-Z0-9_.]*/ ;",
    "",
    "comment = /\\/\\/[^\\n]*|--[^\\n]*|\\/\\*[^*]*\\*+([^\\/*][^*]*\\*+)*\\// ;"]

/-- The grammar. -/
def grammarText : String := String.join (grammarLines.map (· ++ "\n"))

/-- The lines of the query for highlights. -/
def highlightLines : List String :=
  ["; Syntax highlighting for HyperQL.",
    "",
    "(comment) @comment",
    "",
    "(string_literal) @string",
    "(integer_literal) @number",
    "(float_literal) @number",
    "(boolean_literal) @constant.builtin",
    "(null_literal) @constant.builtin",
    "",
    "(data_type) @type",
    "(isolation_level) @constant",
    "",
    "(namespace_identifier) @namespace",
    "(variable) @variable.parameter",
    "",
    "(decorator \"@\" @attribute name: (identifier) @attribute)",
    "",
    "(function_call name: (identifier) @function)",
    "(property_access property: (identifier) @property)",
    "",
    "(node_pattern variable: (identifier)? @variable type: (identifier)? @type)",
    "(edge_pattern variable: (identifier)? @variable type: (identifier)? @type)",
    "",
    "(define_node name: (identifier) @type)",
    "(define_edge name: (identifier) @type)",
    "(define_enum name: (identifier) @type)",
    "(define_struct name: (identifier) @type)",
    "(define_trait name: (identifier) @type)",
    "(define_field name: (identifier) @property)",
    "(role_definition name: (identifier) @property role_type: (identifier) @type)",
    "",
    "[",
    "  \"DEFINE\" \"NAMESPACE\" \"ENUM\" \"FIELD\" \"ROLE\" \"STRUCT\" \"TRAIT\" \"NODE\" \"EDGE\"",
    "  \"INDEX\" \"ABSTRACT\" \"EXTENDS\" \"ALLOWS\" \"STRICT_MODE\"",
    "  \"VALIDATE\" \"MIGRATION\" \"MIGRATE\" \"ALTER\" \"ADD\" \"DROP\" \"RENAME\" \"TO\" \"MAP\" \"DEFAULTS\"",
    "  \"SHOW\" \"NODE TYPES\" \"EDGE TYPES\" \"FIELDS\" \"ROLES\" \"SCHEMA\" \"EXPLAIN\" \"ANALYZE\"",
    "  \"BATCH\" \"BEGIN\" \"ISOLATION\" \"LEVEL\" \"ON ERROR CONTINUE\"",
    "  \"IMPORT\" \"AS\" \"MATCH\" \"PATH\" \"OPTIONAL\" \"CROSS_TYPE\" \"USE\" \"WEIGHT\" \"BY\" \"USING\"",
    "  \"CREATE\" \"MERGE\" \"ON\" \"SET\" \"REMOVE\" \"DELETE\" \"DETACH\" \"WITH\" \"WHERE\" \"GROUP\"",
    "  \"ORDER\" \"ASC\" \"DESC\" \"LIMIT\" \"SKIP\" \"RETURN\" \"DISTINCT\" \"UNION\" \"ALL\" \"UNWIND\"",
    "  \"OVER\" \"PARTITION\" \"CASE\" \"WHEN\" \"THEN\" \"ELSE\" \"END\" \"EXISTS\"",
    "] @keyword",
    "",
    "[",
    "  \"+\" \"-\" \"*\" \"/\" \"%\" \"<\" \">\" \"<=\" \">=\" \"==\" \"=\" \"!=\" \"&&\" \"||\" \"!\"",
    "  \"IS\" \"LIKE\" \"ILIKE\" \"MATCHES\" \"IMATCHES\" \"IN\" \"IS NULL\" \"IS NOT NULL\"",
    "  \"+=\" \"-=\" \"->\" \"<-\" \"=>\"",
    "] @operator",
    "",
    "[\"(\" \")\" \"[\" \"]\" \"\x7b\" \"\x7d\"] @punctuation.bracket",
    "[\",\" \";\" \":\" \".\"] @punctuation.delimiter"]

/-- The query for highlights. -/
def highlightText : String := String.join (highlightLines.map (· ++ "\n"))

/-- The parse table of the language. -/
def table (_ : Unit) : Except GrammarError ParseTable :=
  (Grammar.ofText grammarText.toList).bind Grammar.compile

end LRWorkbench.HyperQL
