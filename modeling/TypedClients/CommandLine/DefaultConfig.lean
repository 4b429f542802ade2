import TypedClients.Text.Cut

namespace TypedClients.CommandLine

def configFileName : String := ".apigen.yaml"

def defaultConfig : String :=
  Text.join "\n" [
    "# apigen configuration",
    "input: openapi.yaml",
    "# workspace: src/api      # writes an index re-exporting every target",
    "",
    "targets:",
    "  - name: client",
    "    client: fetch           # fetch | axios | axios-functions | zod",
    "    output: src/api/client",
    "    mode: split             # single | split | tags | tags-split | operations",
    "    models: typescript      # typescript | zod",
    "    index: true",
    "    # base_url: https://api.example.com",
    "    # mutator: \x7b path: ./custom-instance.ts, name: customInstance \x7d",
    "    explode_arrays: false",
    "    naming:",
    "      strategy: use_operation_id  # use_operation_id | use_route_based",
    "      aliases: \x7b\x7d",
    "    filters:",
    "      tags: []",
    "      exclude_tags: []",
    "",
    "  # - name: validation",
    "  #   client: zod",
    "  #   output: src/api/zod",
    "  #   zod:",
    "  #     version: \"^3.23.0\"",
    "  #     strict: \x7b body: true, response: false \x7d",
    "  #     coerce: \x7b query: true, param: [number] \x7d",
    ""]

end TypedClients.CommandLine
