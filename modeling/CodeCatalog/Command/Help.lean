import CodeCatalog.Command.Form
set_option autoImplicit false

/-!
# Help on commands

The text that a command prints when it is asked for help: how it is used, and what its
operands and options stand for.
-/

namespace CodeCatalog

namespace Help

/-- How the commands are used. -/
def usage : Option Form → List Text
  | none => [
    "usage: codeindex [-h] [-v]",
    "                 \x7bparse-file,parse-dir,embed,upsert,query,build-index\x7d ..."]
  | some .parseFile => [
    "usage: codeindex parse-file [-h] [--root ROOT]",
    "                            [--max-snippet-size MAX_SNIPPET_SIZE] [-o OUTPUT]",
    "                            path"]
  | some .parseFolder => [
    "usage: codeindex parse-dir [-h] [-e EXTENSIONS [EXTENSIONS ...]]",
    "                           [--exclude-dirs [EXCLUDE_DIRS ...]]",
    "                           [--max-snippet-size MAX_SNIPPET_SIZE]",
    "                           [--granularity \x7bfine,medium,coarse\x7d] [-o OUTPUT]",
    "                           root"]
  | some .embed => [
    "usage: codeindex embed [-h] [--model MODEL] [--api-key API_KEY]",
    "                       [--api-base API_BASE]",
    "                       input output"]
  | some .upsert => [
    "usage: codeindex upsert [-h] --collection COLLECTION [--qdrant-url QDRANT_URL]",
    "                        input"]
  | some .query => [
    "usage: codeindex query [-h] --collection COLLECTION [--top-k TOP_K]",
    "                       [--qdrant-url QDRANT_URL] [-o OUTPUT] [--model MODEL]",
    "                       [--api-key API_KEY] [--api-base API_BASE]",
    "                       text"]
  | some .buildIndex => [
    "usage: codeindex build-index [-h] [-e EXTENSIONS [EXTENSIONS ...]]",
    "                             [--exclude-dirs [EXCLUDE_DIRS ...]]",
    "                             [--max-snippet-size MAX_SNIPPET_SIZE]",
    "                             [--granularity \x7bfine,medium,coarse\x7d] --collection",
    "                             COLLECTION [--qdrant-url QDRANT_URL]",
    "                             [--model MODEL] [--api-key API_KEY]",
    "                             [--api-base API_BASE]",
    "                             root"]

/-- What the operands and options of the commands stand for. -/
def details : Option Form → List Text
  | none => [
    "",
    "Semantic code indexing",
    "",
    "positional arguments:",
    "  \x7bparse-file,parse-dir,embed,upsert,query,build-index\x7d",
    "    parse-file          Extract entities from one file",
    "    parse-dir           Extract entities from a directory tree",
    "    embed               Add embeddings to a JSON entity index",
    "    upsert              Upsert an embedded JSON index into Qdrant",
    "    query               Search a collection",
    "    build-index         Parse, embed and upsert a directory",
    "",
    "options:",
    "  -h, --help            show this help message and exit",
    "  -v, --verbose         Enable debug logging"]
  | some .parseFile => [
    "",
    "positional arguments:",
    "  path                  File path, or a path suffix when --root is given",
    "",
    "options:",
    "  -h, --help            show this help message and exit",
    "  --root ROOT           Directory to resolve a partial path under",
    "  --max-snippet-size MAX_SNIPPET_SIZE",
    "  -o OUTPUT, --output OUTPUT",
    "                        Write JSON here instead of stdout"]
  | some .parseFolder => [
    "",
    "positional arguments:",
    "  root                  Directory to index",
    "",
    "options:",
    "  -h, --help            show this help message and exit",
    "  -e EXTENSIONS [EXTENSIONS ...], --extensions EXTENSIONS [EXTENSIONS ...]",
    "                        File extensions (default: rs ts tsx)",
    "  --exclude-dirs [EXCLUDE_DIRS ...]",
    "                        Directory names to skip",
    "  --max-snippet-size MAX_SNIPPET_SIZE",
    "                        Split/merge size bound in characters",
    "  --granularity \x7bfine,medium,coarse\x7d",
    "  -o OUTPUT, --output OUTPUT",
    "                        Write JSON here instead of stdout"]
  | some .embed => [
    "",
    "positional arguments:",
    "  input",
    "  output",
    "",
    "options:",
    "  -h, --help           show this help message and exit",
    "  --model MODEL        Embedding model (default: text-embedding-3-small)",
    "  --api-key API_KEY    API key (default: OPENAI_API_KEY)",
    "  --api-base API_BASE  API base URL (default: OPENAI_API_BASE)"]
  | some .upsert => [
    "",
    "positional arguments:",
    "  input",
    "",
    "options:",
    "  -h, --help            show this help message and exit",
    "  --collection COLLECTION",
    "  --qdrant-url QDRANT_URL"]
  | some .query => [
    "",
    "positional arguments:",
    "  text",
    "",
    "options:",
    "  -h, --help            show this help message and exit",
    "  --collection COLLECTION",
    "  --top-k TOP_K",
    "  --qdrant-url QDRANT_URL",
    "  -o OUTPUT, --output OUTPUT",
    "  --model MODEL         Embedding model (default: text-embedding-3-small)",
    "  --api-key API_KEY     API key (default: OPENAI_API_KEY)",
    "  --api-base API_BASE   API base URL (default: OPENAI_API_BASE)"]
  | some .buildIndex => [
    "",
    "positional arguments:",
    "  root                  Directory to index",
    "",
    "options:",
    "  -h, --help            show this help message and exit",
    "  -e EXTENSIONS [EXTENSIONS ...], --extensions EXTENSIONS [EXTENSIONS ...]",
    "                        File extensions (default: rs ts tsx)",
    "  --exclude-dirs [EXCLUDE_DIRS ...]",
    "                        Directory names to skip",
    "  --max-snippet-size MAX_SNIPPET_SIZE",
    "                        Split/merge size bound in characters",
    "  --granularity \x7bfine,medium,coarse\x7d",
    "  --collection COLLECTION",
    "  --qdrant-url QDRANT_URL",
    "  --model MODEL         Embedding model (default: text-embedding-3-small)",
    "  --api-key API_KEY     API key (default: OPENAI_API_KEY)",
    "  --api-base API_BASE   API base URL (default: OPENAI_API_BASE)"]

/-- Lines, each with its line feed. -/
def block (lines : List Text) : Text := lines.flatMap fun l => l ++ [Glyph.newline]

/-- The help on a command, or on all of them. -/
def text (form : Option Form) : Text := block (usage form ++ details form)

end Help

end CodeCatalog
