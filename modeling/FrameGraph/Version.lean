/-!
# Version and usage

What the library and the program say of themselves.
-/

namespace FrameGraph

/-- The version of the library. -/
def version : String := "0.1.0"

namespace Program

/-- What the program prints when it is asked for help. -/
def usage : List String :=
  ["Compile a frame graph and print its frames", "", "Options:",
    "      --graph FILE              the graph, in place of the built-in one",
    "      --config FILE             settings, which other options override",
    "      --strategy STRATEGY       how resources are assigned: naive or optimized",
    "      --naive                   the same as --strategy naive",
    "  -v, --verbose                 print input, order and reports",
    "      --width N, --height N     the resolution",
    "      --dump-dir DIRECTORY      where a verbose run writes its reports",
    "      --strict                  fail on resources of unknown type",
    "      --frames N                how many frames to run, 1 if not given",
    "      --write-default FILE      write the built-in graph and do nothing else",
    "  -h, --help                    print this"]

end Program

end FrameGraph
